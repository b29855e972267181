import Mathlib.Tactic
import Binarius.Shared.Trading
import Binarius.MarketData.Seconds

/-!
# Signal.H1Detector — the H1 decision, its stored row and its replay
(packages/signal: h1.ts; apps/backend/src/h1/driver.ts; packages/db: signal-decision-ops.ts)

The floating-point operations are parameters (`DoubleOps`); a double is `none` for NaN.

* `H1Detector.decide`: a move against the RMS of the moves of the window.
* `H1Detector.decide_congr`: **the decision reads the closes of its window and no other**.
* `H1Series.window_drop`: a shorter window of the series is the end of a longer one.
* `h1_decision_replays`: the window decides as the whole series does, and the stored row replays.
-/

namespace Binarius

/-- The operations on doubles the detector uses; a result is `none` for NaN. -/
structure DoubleOps (R : Type) where
  zero : R
  /-- H1_PRICE_RANGE -/
  priceMin : R
  priceMax : R
  ofNat : ℕ → R
  eq : R → R → Bool
  lt : R → R → Bool
  le : R → R → Bool
  isFinite : R → Bool
  sub : R → R → Option R
  add : R → R → Option R
  mul : R → R → Option R
  div : R → R → Option R
  sqrt : R → Option R
  abs : R → R
  /-- `String(x)` -/
  text : R → String
  /-- the range has no infinity -/
  range_finite : ∀ x, le priceMin x = true → le x priceMax = true → isFinite x = true

/-- An operation on doubles: NaN gives NaN. -/
def nanLift {R : Type} (op : R → R → Option R) (x y : Option R) : Option R :=
    x.bind (fun x => y.bind (op x))

namespace DoubleOps

variable {R : Type} (ops : DoubleOps R)

/-- `Number.isFinite`. -/
def finite (x : Option R) : Bool := x.any ops.isFinite

/-- A comparison with NaN is false. -/
def gt (x : Option R) (y : R) : Bool := x.any (fun x => ops.lt y x)

end DoubleOps

/-! ## The detector -/

structure H1DetectorParams (R : Type) where
  moveSec : ℤ
  sdWindowSec : ℤ
  sdStepSec : ℤ
  threshold : R

section Detector

variable {R : Type} (ops : DoubleOps R)

abbrev H1DetectorParams.fail (field rule value : String) : Except String Unit :=
  .error ("h1 params: " ++ field ++ " must be " ++ rule ++ ", got " ++ value)

def assertH1Params (p : H1DetectorParams R) : Except String Unit :=
  if p.moveSec < 1 then H1DetectorParams.fail "moveSec" "an integer >= 1" (toString p.moveSec)
  else if p.sdWindowSec < 1 then H1DetectorParams.fail "sdWindowSec" "an integer >= 1" (toString p.sdWindowSec)
  else if p.sdStepSec < 1 then H1DetectorParams.fail "sdStepSec" "an integer >= 1" (toString p.sdStepSec)
  else if p.sdWindowSec % p.sdStepSec ≠ 0 then
    H1DetectorParams.fail "sdWindowSec" ("a multiple of sdStepSec (" ++ toString p.sdStepSec ++ ")")
      (toString p.sdWindowSec)
  else if !ops.isFinite p.threshold || !ops.lt ops.zero p.threshold then
    H1DetectorParams.fail "threshold" "finite and > 0" (ops.text p.threshold)
  else .ok ()

def assertH1WindowFits (p : H1DetectorParams R) (name : String) : Except String Unit :=
  if p.sdStepSec < p.moveSec then
    .error (name ++ ": moveSec (" ++ toString p.moveSec ++ ") must be <= sdStepSec (" ++
      toString p.sdStepSec ++
      "): the window of sdWindowSec + 1 closes holds every close a decision reads only then")
  else .ok ()

inductive H1MissingPrice
  | last
  | before
  deriving DecidableEq, Repr

/-- The numbers of a decision, as doubles or as JSON has them. -/
structure H1Features (N : Type) where
  move : N
  sd : N
  z : N
  moves : ℕ
  lastClose : N
  deriving DecidableEq

inductive H1DetectorDecision (N : Type)
  | signal (action : TradeAction) (features : H1Features N)
  | belowThreshold (features : H1Features N)
  | noPrice (missing : H1MissingPrice)
  | noVolatility (moves : ℕ)
  deriving DecidableEq

/-- A detector has passed its assertion. -/
structure H1Detector (ops : DoubleOps R) where
  params : H1DetectorParams R
  asserted : assertH1Params ops params = .ok ()

def createH1Detector (p : H1DetectorParams R) : Except String (H1Detector ops) :=
  match h : assertH1Params ops p with
  | .ok () => .ok { params := p, asserted := h }
  | .error message => .error message

/-- A close out of H1_PRICE_RANGE reads as missing. -/
def priceOf (close : Option R) : Option R :=
  close.filter (fun c => ops.le ops.priceMin c && ops.le c ops.priceMax)

def priceAt (closes : List (Option R)) (i : ℤ) : Option R :=
  if 0 ≤ i then priceOf ops (closes[i.toNat]?.join) else none

namespace H1Detector

variable {ops} (d : H1Detector ops)

/-- The seconds `j` of the loop: from `i - sdWindowSec + sdStepSec` to `i`, by `sdStepSec`. -/
def moveIndices (i : ℤ) : List ℤ :=
  let first := i - d.params.sdWindowSec + d.params.sdStepSec
  (List.range ((i - first) / d.params.sdStepSec + 1).toNat).map (fun k : ℕ =>
    first + d.params.sdStepSec * k)

/-- The finite moves of the window. -/
def windowMoves (closes : List (Option R)) (i : ℤ) : List (Option R) :=
  ((d.moveIndices i).map (fun j => nanLift ops.sub (priceAt ops closes j)
    (priceAt ops closes (j - d.params.moveSec)))).filter ops.finite

/-- The decision on the current move and the moves of the window. -/
def judge (last before : Option R) (moves : List (Option R)) : H1DetectorDecision (Option R) :=
  if !ops.finite last then .noPrice .last
  else if !ops.finite before then .noPrice .before
  else
    let ss := moves.foldl (fun ss r => nanLift ops.add ss (nanLift ops.mul r r)) (some ops.zero)
    let move := nanLift ops.sub last before
    let sd := (nanLift ops.div ss (some (ops.ofNat moves.length))).bind ops.sqrt
    if sd.any (fun sd => ops.eq sd ops.zero) then .noVolatility moves.length
    else
      let z := nanLift ops.div (move.map ops.abs) sd
      let features := { move, sd, z, moves := moves.length, lastClose := last }
      if ops.gt z d.params.threshold then
        .signal (if ops.gt move ops.zero then .up else .down) features
      else .belowThreshold features

def decide (closes : List (Option R)) (i : ℤ) : Except String (H1DetectorDecision (Option R)) :=
  if i < 0 ∨ (closes.length : ℤ) ≤ i then 
    .error ("h1: at must be an index of closes [0, " ++ toString closes.length ++ "), got " ++ toString i)
  else .ok (d.judge (priceAt ops closes i) (priceAt ops closes (i - d.params.moveSec))
    (d.windowMoves closes i))

end H1Detector

end Detector

/-! ## The row and its replay -/

/-- A number in JSON. -/
inductive JsonNumber (R : Type)
  | null
  | num (x : R)
  deriving DecidableEq

section Row

variable {R : Type} (ops : DoubleOps R)

/-- JSON has no NaN and no infinity. -/
def jsonOf (x : Option R) : JsonNumber R :=
  match x with
  | none => .null
  | some x => if ops.isFinite x then .num x else .null

/-- `close ?? NaN`. -/
def JsonNumber.double : JsonNumber R → Option R
  | .null => none
  | .num x => some x

def H1Features.map {N M : Type} (f : N → M) (features : H1Features N) : H1Features M where
  move := f features.move
  sd := f features.sd
  z := f features.z
  moves := features.moves
  lastClose := f features.lastClose

def H1DetectorDecision.map {N M : Type} (f : N → M) : H1DetectorDecision N → H1DetectorDecision M
  | .signal action features => .signal action (features.map f)
  | .belowThreshold features => .belowThreshold (features.map f)
  | .noPrice missing => .noPrice missing
  | .noVolatility moves => .noVolatility moves

def H1DetectorDecision.action {N : Type} : H1DetectorDecision N → Option TradeAction
  | .signal action _ => some action
  | _ => none

structure H1DecidedSecond (R : Type) where
  assetId : ℕ
  f : ℤ
  takenAtMs : ℚ
  decision : H1DetectorDecision (Option R)
  digits : ℕ
  closedBy : H1SecondClosedBy
  closedAtMs : Option ℚ
  /-- NaN is null -/
  series : List (Option R)

def secondFacts (assetId : ℕ) (f : ℤ) (takenAtMs : ℚ) (decision : H1DetectorDecision (Option R))
    (digits : ℕ)
    (closedBy : H1SecondClosedBy) (closedAtMs : Option ℚ) (closes : List (Option R)) : H1DecidedSecond R :=
  { assetId, f, takenAtMs, decision, digits, closedBy, closedAtMs, series := closes }

/-- A closed second: the detector on the window, at its last index. -/
def decideSecond {ops : DoubleOps R} (d : H1Detector ops) (assetId : ℕ) (f : ℤ) (takenAtMs : ℚ) (digits : ℕ)
    (closedBy : H1SecondClosedBy) (closedAtMs : Option ℚ) (closes : List (Option R)) :
    Except String (H1DecidedSecond R) := do
  let decision ← d.decide closes (closes.length - 1)
  return secondFacts assetId f takenAtMs decision digits closedBy closedAtMs closes

structure H1ShadowSource where
  symbol : String
  closedBy : H1SecondClosedBy
  closedAtMs : Option ℚ

structure H1ShadowParams (R : Type) where
  set : String
  detector : H1DetectorParams R
  entryDelaySec : ℕ
  expirySec : ℕ

/-- The row as the database holds it: its numbers have been through JSON. -/
structure H1DecisionRow (R : Type) where
  assetId : ℕ
  version : String
  decidedAtMs : ℤ
  takenAtMs : ℚ
  action : Option TradeAction
  digits : ℕ
  params : H1ShadowParams R
  decision : H1DetectorDecision (JsonNumber R)
  source : H1ShadowSource
  series : List (JsonNumber R)

def h1SecondRow (params : H1ShadowParams R) (symbol : String) (facts : H1DecidedSecond R) :
    H1DecisionRow R where
  assetId := facts.assetId
  version := "h1"
  decidedAtMs := facts.f
  takenAtMs := facts.takenAtMs
  action := facts.decision.action
  digits := facts.digits
  params := params
  decision := facts.decision.map (jsonOf ops)
  source := { symbol, closedBy := facts.closedBy, closedAtMs := facts.closedAtMs }
  series := facts.series.map (jsonOf ops)

structure H1ShadowEntry (R : Type) where
  assetId : ℕ
  digits : ℕ
  nowMs : ℤ
  source : H1ShadowSource
  version : String
  params : H1ShadowParams R
  series : List (JsonNumber R)
  decision : H1DetectorDecision (JsonNumber R)

def journalEntryOf (row : H1DecisionRow R) : H1ShadowEntry R where
  assetId := row.assetId
  digits := row.digits
  nowMs := row.decidedAtMs
  source := row.source
  version := row.version
  params := row.params
  series := row.series
  decision := row.decision

def replayH1Entry (entry : H1ShadowEntry R) : Except String (H1DetectorDecision (Option R)) := do
  let d ← createH1Detector ops entry.params.detector
  d.decide (entry.series.map JsonNumber.double) (entry.series.length - 1)

end Row

/-! ## What a decision reads -/

section Reads

variable {R : Type} {ops : DoubleOps R} {d : H1Detector ops} {p : H1DetectorParams R}

theorem assertH1Params_ok (h : assertH1Params ops p = .ok ()) :
    1 ≤ p.moveSec ∧ 1 ≤ p.sdWindowSec ∧ 1 ≤ p.sdStepSec ∧ p.sdStepSec ∣ p.sdWindowSec := by
  unfold assertH1Params at h
  split_ifs at h with hmove hwindow hstep hmultiple hthreshold
  exact ⟨not_lt.mp hmove, not_lt.mp hwindow, not_lt.mp hstep, Int.dvd_of_emod_eq_zero
    (not_not.mp hmultiple)⟩

theorem createH1Detector_ok (h : createH1Detector ops p = .ok d) : d.params = p := by
  unfold createH1Detector at h
  split at h
  · cases h
    rfl
  · cases h

theorem createH1Detector_params (d : H1Detector ops) : createH1Detector ops d.params = .ok d := by
  unfold createH1Detector
  split
  · rfl
  · rename_i message herror
    rw [d.asserted] at herror
    cases herror

/-- The loop reads from the second after the window's first step to the last, and a move back from each. -/
theorem H1Detector.mem_moveIndices {i j : ℤ} (h : j ∈ d.moveIndices i) :
    i - d.params.sdWindowSec + d.params.sdStepSec ≤ j ∧ j ≤ i := by
  obtain ⟨-, -, hstep, -⟩ := assertH1Params_ok d.asserted
  obtain ⟨k, hk, rfl⟩ := List.mem_map.mp h
  have hlt := List.mem_range.mp hk
  have hnonneg : 0 ≤ d.params.sdStepSec * (k : ℤ) := mul_nonneg (by omega) (Int.natCast_nonneg k)
  refine ⟨by omega, ?_⟩
  have hle : (k : ℤ) ≤ (i - (i - d.params.sdWindowSec + d.params.sdStepSec)) /
    d.params.sdStepSec := by omega
  have hmul := Int.mul_le_mul_of_nonneg_left hle (by omega : 0 ≤ d.params.sdStepSec)
  have hdiv := Int.mul_ediv_self_le (x := i - (i - d.params.sdWindowSec + d.params.sdStepSec))
    (k := d.params.sdStepSec) (by omega)
  omega

/-- The loop's seconds move with its last one. -/
theorem H1Detector.moveIndices_shift (d : H1Detector ops) (i i' : ℤ) :
    d.moveIndices i = (d.moveIndices i').map (fun j => j + (i - i')) := by
  have hspan : ∀ n : ℤ, n - (n - d.params.sdWindowSec + d.params.sdStepSec) =
      d.params.sdWindowSec - d.params.sdStepSec := fun n => by omega
  unfold H1Detector.moveIndices
  simp only [hspan, List.map_map]
  refine List.map_congr_left (fun k _ => ?_)
  simp only [Function.comp_apply]
  omega

/-- **The decision reads its window**: two series that agree on the last `sdWindowSec + 1` closes decide
alike. -/
theorem H1Detector.decide_congr {closes closes' : List (Option R)} {i i' : ℤ}
    (hfit : d.params.moveSec ≤ d.params.sdStepSec) (hi : 0 ≤ i ∧ i < closes.length)
    (hi' : 0 ≤ i' ∧ i' < closes'.length)
    (h : ∀ back, 0 ≤ back → back ≤ d.params.sdWindowSec →
      priceAt ops closes (i - back) = priceAt ops closes' (i' - back)) :
    d.decide closes i = d.decide closes' i' := by
  obtain ⟨hmove, hwindow, hstep, hdvd⟩ := assertH1Params_ok d.asserted
  have hle : d.params.sdStepSec ≤ d.params.sdWindowSec := Int.le_of_dvd (by omega) hdvd
  have hlast := h 0 le_rfl (by omega)
  rw [Int.sub_zero, Int.sub_zero] at hlast
  have hmoves : d.windowMoves closes i = d.windowMoves closes' i' := by
    unfold H1Detector.windowMoves
    rw [H1Detector.moveIndices_shift d i i', List.map_map]
    congr 1
    refine List.map_congr_left (fun j hj => ?_)
    obtain ⟨hfirst, hend⟩ := H1Detector.mem_moveIndices hj
    have hread := h (i' - j) (by omega) (by omega)
    have hback := h (i' - j + d.params.moveSec) (by omega) (by omega)
    rw [show i - (i' - j) = j + (i - i') by omega, show i' - (i' - j) = j by omega] at hread
    rw [show i - (i' - j + d.params.moveSec) = j + (i - i') - d.params.moveSec by omega,
      show i' - (i' - j + d.params.moveSec) = j - d.params.moveSec by omega] at hback
    show nanLift ops.sub (priceAt ops closes (j + (i - i')))
      (priceAt ops closes (j + (i - i') - d.params.moveSec)) = _
    rw [hread, hback]
  unfold H1Detector.decide
  rw [if_neg (by omega), if_neg (by omega), hlast, h d.params.moveSec (by omega) (by omega), hmoves]

/-! ## The window and the row -/

/-- The last `lengthSec` closes up to index `i`. -/
def closesWindow (closes : List (Option R)) (i lengthSec : ℕ) : List (Option R) :=
  (closes.drop (i + 1 - lengthSec)).take lengthSec

/-- A stored close reads as the close did. -/
theorem priceOf_json (close : Option R) : priceOf ops (jsonOf ops close).double = priceOf ops close := by
  cases close with
  | none => rfl
  | some x =>
    unfold jsonOf
    simp only
    split_ifs with hfinite
    · rfl
    · -- not finite: not in the range
      show none = _
      unfold priceOf
      rw [Option.filter_some, if_neg]
      intro hrange
      obtain ⟨hmin, hmax⟩ := Bool.and_eq_true _ _ ▸ hrange
      exact hfinite (ops.range_finite x hmin hmax)

theorem priceAt_json (closes : List (Option R)) (i : ℤ) :
    priceAt ops ((closes.map (jsonOf ops)).map JsonNumber.double) i = priceAt ops closes i := by
  unfold priceAt
  split_ifs
  · rw [List.map_map, List.getElem?_map]
    cases closes[i.toNat]? with
    | none => rfl
    | some close => exact priceOf_json close
  · rfl

/-- **A stored row replays**: the replay decides what the driver decided. -/
theorem replayH1Entry_row {closes : List (Option R)} {facts : H1DecidedSecond R} {params : H1ShadowParams R}
    {symbol : String} {assetId digits : ℕ} {f : ℤ} {takenAtMs : ℚ} {closedBy : H1SecondClosedBy}
    {closedAtMs : Option ℚ} (hparams : params.detector = d.params)
    (hfit : d.params.moveSec ≤ d.params.sdStepSec)
    (h : decideSecond d assetId f takenAtMs digits closedBy closedAtMs closes = .ok facts) :
    replayH1Entry ops (journalEntryOf (h1SecondRow ops params symbol facts)) = .ok facts.decision := by
  unfold decideSecond at h
  cases hdecide : d.decide closes (closes.length - 1) with
  | error message =>
    rw [hdecide] at h
    cases h
  | ok decision =>
    rw [hdecide] at h
    cases h
    have hindex : 0 ≤ (closes.length : ℤ) - 1 ∧ (closes.length : ℤ) - 1 < closes.length := by
      unfold H1Detector.decide at hdecide
      split_ifs at hdecide with hrange
      omega
    show (createH1Detector ops params.detector).bind _ = _
    rw [hparams, createH1Detector_params]
    show d.decide ((closes.map (jsonOf ops)).map JsonNumber.double) ((closes.map (jsonOf ops)).length - 1) =
      .ok decision
    rw [← hdecide, List.length_map]
    refine H1Detector.decide_congr hfit ?_ hindex (fun back _ _ => priceAt_json closes _)
    rw [List.length_map, List.length_map]
    exact hindex

theorem closesWindow_getElem? {closes : List (Option R)} {i lengthSec k : ℕ}
    (hk : k < lengthSec) : (closesWindow closes i lengthSec)[k]? = closes[i + 1 - lengthSec + k]? := by
  unfold closesWindow
  rw [List.getElem?_take, if_pos hk, List.getElem?_drop]

/-- **The window decides as the series**: the last `sdWindowSec + 1` closes up to an index decide as the
whole series at the index. -/
theorem H1Detector.decide_window {closes : List (Option R)} {i lengthSec : ℕ}
    (hfit : d.params.moveSec ≤ d.params.sdStepSec) (hlength : (lengthSec : ℤ) = d.params.sdWindowSec + 1)
    (hlen : lengthSec ≤ i + 1) (hi : i < closes.length) :
    d.decide (closesWindow closes i lengthSec) (lengthSec - 1) = d.decide closes i := by
  obtain ⟨-, hwindow, -, -⟩ := assertH1Params_ok d.asserted
  have hcount : (closesWindow closes i lengthSec).length = lengthSec := by
    unfold closesWindow
    rw [List.length_take, List.length_drop]
    omega
  refine H1Detector.decide_congr hfit ⟨by omega, by omega⟩ ⟨by omega, by omega⟩ (fun back h0 hback => ?_)
  unfold priceAt
  rw [if_pos (by omega), if_pos (by omega), closesWindow_getElem? (by omega)]
  congr 3
  omega

/-! ## The series of seconds -/

/-- **A shorter window of the series** is the end of a longer one that ends at the same second. -/
theorem SecondSeries.window_suffix (o : SecondSeriesOptions) (s : SecondSeries) (assetId : ℕ) (f : ℤ)
    {short long : ℕ} (h : short ≤ long) :
    (s.window o assetId f short).closes = closesWindow (s.window o assetId f long).closes (long - 1)
      short := by
  cases hshort : short with
  | zero =>
    unfold SecondSeries.window closesWindow
    cases s.pairs.get? assetId with
    | none => rfl
    | some pair => rfl
  | succ last =>
    rw [← hshort]
    have hdrop : long - 1 + 1 - short = long - short := by omega
    unfold SecondSeries.window closesWindow
    rw [hdrop]
    cases s.pairs.get? assetId with
    | none =>
      show List.replicate short none = ((List.replicate long none).drop (long - short)).take short
      rw [List.drop_replicate, List.take_replicate]
      congr 1
      omega
    | some pair =>
      refine List.ext_getElem? (fun k => ?_)
      simp only [List.getElem?_take, List.getElem?_drop, List.getElem?_map]
      split_ifs with hk
      · rw [List.getElem?_range hk, List.getElem?_range (by omega)]
        have hsecond : windowSecond f short k = windowSecond f long (long - short + k) := by
          unfold windowSecond
          omega
        rw [Option.map_some, Option.map_some, hsecond]
      · rw [List.getElem?_eq_none (by rw [List.length_range]; omega)]
        rfl

/-- **The driver's window**: the series' last `sdWindowSec + 1` seconds decide as any longer window that
ends with them. -/
theorem H1Detector.decide_series {ops : DoubleOps ℚ} {d : H1Detector ops} (o : SecondSeriesOptions)
    (s : SecondSeries) (assetId : ℕ) (f : ℤ) {length long : ℕ} (hfit : d.params.moveSec ≤
      d.params.sdStepSec)
    (hlength : (length : ℤ) = d.params.sdWindowSec + 1) (hlong : length ≤ long) :
    d.decide (s.window o assetId f length).closes (length - 1) =
      d.decide (s.window o assetId f long).closes (long - 1) := by
  obtain ⟨-, hwindow, -, -⟩ := assertH1Params_ok d.asserted
  have hcount : (s.window o assetId f long).closes.length = long := by
    unfold SecondSeries.window
    cases s.pairs.get? assetId with
    | none => exact List.length_replicate
    | some pair =>
      show ((List.range long).map _).length = long
      rw [List.length_map, List.length_range]
  rw [SecondSeries.window_suffix o s assetId f hlong, H1Detector.decide_window hfit hlength (by omega)
    (by omega)]
  congr 1
  omega

/-- **The H1 decision depends only on its window and replays**, for every detector whose move fits its
step: the last `sdWindowSec + 1` closes up to an index decide as the series does there, and the stored
row of a decided second has its decision and its direction and replays to it. -/
theorem h1_decision_replays (d : H1Detector ops) (name : String)
    (hfit : assertH1WindowFits d.params name = .ok ()) :
    (∀ (closes : List (Option R)) (i lengthSec : ℕ), (lengthSec : ℤ) = d.params.sdWindowSec + 1 →
      lengthSec ≤ i + 1 → i < closes.length →
      d.decide (closesWindow closes i lengthSec) (lengthSec - 1) = d.decide closes i) ∧
      ∀ (closes : List (Option R)) (facts : H1DecidedSecond R) (params : H1ShadowParams R) (symbol : String)
        (assetId digits : ℕ) (f : ℤ) (takenAtMs : ℚ) (closedBy : H1SecondClosedBy) (closedAtMs : Option ℚ),
        params.detector = d.params →
        decideSecond d assetId f takenAtMs digits closedBy closedAtMs closes = .ok facts →
        replayH1Entry ops (journalEntryOf (h1SecondRow ops params symbol facts)) = .ok facts.decision ∧
          (h1SecondRow ops params symbol facts).action = facts.decision.action ∧
          (journalEntryOf (h1SecondRow ops params symbol facts)).decision = facts.decision.map
            (jsonOf ops) := by
  have hle : d.params.moveSec ≤ d.params.sdStepSec := by
    unfold assertH1WindowFits at hfit
    split_ifs at hfit with hwide
    exact not_lt.mp hwide
  refine ⟨fun closes i lengthSec hlength hlen hi => H1Detector.decide_window hle hlength hlen hi, ?_⟩
  intro closes facts params symbol assetId digits f takenAtMs closedBy closedAtMs hparams hfacts
  exact ⟨replayH1Entry_row hparams hle hfacts, rfl, rfl⟩

end Reads

/-- Rationals in place of doubles. -/
def rationalOps : DoubleOps ℚ where
  zero := 0
  priceMin := 1 / 10 ^ 100
  priceMax := 10 ^ 100
  ofNat := fun n => n
  eq := fun x y => x == y
  lt := fun x y => Decidable.decide (x < y)
  le := fun x y => Decidable.decide (x ≤ y)
  isFinite := fun _ => true
  sub := fun x y => some (x - y)
  add := fun x y => some (x + y)
  mul := fun x y => some (x * y)
  div := fun x y => if y = 0 then none else some (x / y)
  sqrt := fun x => some (Rat.sqrt x)
  abs := fun x => |x|
  text := fun x => toString x
  range_finite := fun _ _ _ => rfl

def twoStepParams : H1DetectorParams ℚ := { moveSec := 1, sdWindowSec := 2, sdStepSec := 1, threshold := 1 / 2 }

theorem twoStepParams_asserted : assertH1Params rationalOps twoStepParams = .ok () := by
  decide +kernel

def twoStepDetector : H1Detector rationalOps where
  params := twoStepParams
  asserted := twoStepParams_asserted

/-- A rise after a fall, at the end of a longer series, and its stored row. -/
theorem h1_decision_replays_rise :
    twoStepDetector.decide [some 11, some 10, some 11] 2 =
        twoStepDetector.decide [some 5, none, some 11, some 10, some 11] 4 ∧
      ∃ facts, decideSecond twoStepDetector 7 3000 3100 5 .tick (some 3050) [some 11, some 10,
        some 11] = .ok facts ∧
        facts.decision.action = some .up ∧
        replayH1Entry rationalOps (journalEntryOf (h1SecondRow rationalOps
          ⟨"session", twoStepDetector.params, 1, 5⟩ "EURUSD" facts)) = .ok facts.decision := by
  have h := h1_decision_replays twoStepDetector "h1 session 1" (by decide +kernel)
  refine ⟨h.1 [some 5, none, some 11, some 10, some 11] 4 3 (by decide) (by decide) (by decide), ?_⟩
  refine ⟨_, rfl, by decide +kernel, ?_⟩
  exact (h.2 [some 11, some 10, some 11] _ ⟨"session", twoStepDetector.params, 1, 5⟩ "EURUSD" 7 5 3000
    3100 .tick
    (some 3050) rfl rfl).1

end Binarius
