import Mathlib.Tactic
import Binarius.Signal.Ticks

/-!
# Signal.CandleBuilder — candles from ticks (packages/signal/src/ticks.ts)

A builder keeps the newest `capacity` candles of one interval.  A marked hole drops the candles it
overlaps and keeps the buckets it reaches empty.

* `CandleBuilder.push`, `markHole`: the two writers.
* `HoleInv`: **what they keep of the drop periods of a pair**; `HoleInv.push`, `HoleInv.markHole`.
-/

namespace Binarius

structure Candle where
  timestamp : ℤ
  «open» : ℚ
  high : ℚ
  low : ℚ
  close : ℚ
  deriving DecidableEq, Repr

/-- `floorTo`: the start of the bucket of a time. -/
def floorTo (value : ℚ) (step : ℕ) : ℤ := ⌊value / step⌋ * step

/-- The buckets a marked hole reaches, from the first to before the last one's end. -/
structure ReachedBuckets where
  first : ℤ
  limit : ℤ
  deriving DecidableEq, Repr

def ReachedBuckets.has (hole : ReachedBuckets) (bucket : ℤ) : Bool :=
  decide (hole.first ≤ bucket) && decide (bucket < hole.limit)

structure CandleBuilder where
  intervalMs : ℕ
  digits : ℕ
  capacity : ℕ
  stored : List Candle := []
  currentBucket : Option ℤ := none
  /-- survives a hole: the next candle still opens at the last close -/
  lastClose : Option ℚ := none
  watermark : Option ℚ := none
  reached : List ReachedBuckets := []
  late : ℕ := 0
  holed : ℕ := 0
  invalid : ℕ := 0
  skewed : ℕ := 0
  deriving DecidableEq, Repr

namespace CandleBuilder

/-- A tick inside the current candle; close stays with the newest one. -/
def grow (current : Candle) (value : ℚ) (newest : Bool) : Candle :=
  { current with
    high := max current.high value
    low := min current.low value
    close := if newest then value else current.close }

/-- The candle of a bucket's first tick, which opens at the last close. -/
def opened (b : CandleBuilder) (bucket : ℤ) (value : ℚ) : Candle :=
  let start := b.lastClose.getD value
  { timestamp := bucket, «open» := start, high := max start value, low := min start value, close := value }

/-- The candles with a new one at the end, the oldest beyond the capacity gone. -/
def appended (b : CandleBuilder) (candle : Candle) : List Candle :=
  (b.stored ++ [candle]).drop ((b.stored ++ [candle]).length - b.capacity)

/-- The candles after a tick of a bucket that no hole reaches. -/
def placed (b : CandleBuilder) (bucket : ℤ) (value : ℚ) (newest : Bool) : List Candle :=
  match b.stored.getLast? with
  | some current =>
    if current.timestamp = bucket then b.stored.dropLast ++ [grow current value newest]
    else b.appended (b.opened bucket value)
  | none => b.appended (b.opened bucket value)

/-- A tick that is neither late nor refused. -/
def accept (b : CandleBuilder) (tick : Tick) : CandleBuilder :=
  let bucket := floorTo tick.timestamp b.intervalMs
  let value := toFixed b.digits tick.price
  let newest := b.watermark.all (fun watermark => decide (watermark ≤ tick.timestamp))
  let holed := b.reached.any (fun hole => hole.has bucket)
  { b with
    stored := if holed then b.stored else b.placed bucket value newest
    holed := if holed then b.holed + 1 else b.holed
    currentBucket := some bucket
    reached := b.reached.filter (fun hole => decide (bucket < hole.limit))
    lastClose := if newest then some value else b.lastClose
    watermark := if newest then some tick.timestamp else b.watermark }

def push (b : CandleBuilder) (tick : Tick) (receivedAtMs : ℚ) : CandleBuilder :=
  match tickProblem tick receivedAtMs with
  | some .invalid => { b with invalid := b.invalid + 1 }
  | some .skewed => { b with skewed := b.skewed + 1 }
  | none =>
    if b.currentBucket.any (fun current => decide (floorTo tick.timestamp b.intervalMs < current)) then
      { b with late := b.late + 1 }
    else b.accept tick

/-- The candle's span overlaps `[fromMs, toMs]`. -/
def overlaps (intervalMs : ℕ) (candle : Candle) (fromMs toMs : ℚ) : Bool :=
  decide ((candle.timestamp : ℚ) ≤ toMs) && decide (fromMs < candle.timestamp + intervalMs)

/-- Drops every candle the hole overlaps, and builds none for a bucket it reaches. -/
def markHole (b : CandleBuilder) (fromMs toMs : ℚ) : CandleBuilder :=
  { b with
    stored := b.stored.filter (fun candle => !overlaps b.intervalMs candle fromMs toMs)
    reached := b.reached ++
      [{ first := floorTo fromMs b.intervalMs, limit := floorTo toMs b.intervalMs + b.intervalMs }] }

end CandleBuilder

/-! ## Buckets -/

section Buckets

variable {step : ℕ}

theorem floorTo_le (h : 0 < step) (value : ℚ) : (floorTo value step : ℚ) ≤ value := by
  have hstep : (0 : ℚ) < step := by exact_mod_cast h
  have hfloor := Int.floor_le (value / step)
  unfold floorTo
  push_cast
  calc ((⌊value / step⌋ : ℤ) : ℚ) * step ≤ value / step * step := mul_le_mul_of_nonneg_right hfloor hstep.le
    _ = value := div_mul_cancel₀ value hstep.ne'

theorem lt_floorTo_add (h : 0 < step) (value : ℚ) : value < floorTo value step + step := by
  have hstep : (0 : ℚ) < step := by exact_mod_cast h
  have hfloor := Int.lt_floor_add_one (value / step)
  unfold floorTo
  push_cast
  calc value = value / step * step := (div_mul_cancel₀ value hstep.ne').symm
    _ < (⌊value / step⌋ + 1) * step := mul_lt_mul_of_pos_right hfloor hstep
    _ = ⌊value / step⌋ * step + step := by ring

theorem floorTo_mono (h : 0 < step) {a b : ℚ} (hab : a ≤ b) : floorTo a step ≤ floorTo b step := by
  have hstep : (0 : ℚ) ≤ step := by positivity
  have hfloor : ⌊a / step⌋ ≤ ⌊b / step⌋ := Int.floor_le_floor (div_le_div_of_nonneg_right hab hstep)
  unfold floorTo
  exact mul_le_mul_of_nonneg_right hfloor (by positivity)

/-- A bucket's start at or before a time is at or before the start of the time's own bucket. -/
theorem le_floorTo (h : 0 < step) {value : ℚ} {bucket : ℤ} (hdvd : (step : ℤ) ∣ bucket)
    (hle : (bucket : ℚ) ≤ value) : bucket ≤ floorTo value step := by
  have hstep : (0 : ℚ) < step := by exact_mod_cast h
  obtain ⟨k, rfl⟩ := hdvd
  have hk : k ≤ ⌊value / step⌋ := by
    rw [Int.le_floor, le_div_iff₀ hstep]
    push_cast at hle
    linarith
  unfold floorTo
  rw [mul_comm]
  exact mul_le_mul_of_nonneg_right hk (by positivity)

theorem dvd_floorTo (value : ℚ) : (step : ℤ) ∣ floorTo value step := Int.dvd_mul_left _ _

end Buckets

/-! ## Drop periods and the builder -/

section Holes

/-- **What a builder keeps** of the ended drop periods of its pair, `newest` being the pair's newest
tick: no candle overlaps one, and the newest tick's bucket is closed to candles while a period reaches
it. -/
structure HoleInv (newest : Option ℚ) (ended : List (ℚ × ℚ)) (b : CandleBuilder) : Prop where
  interval_pos : 0 < b.intervalMs
  watermark : b.watermark = newest
  current : b.currentBucket = newest.map (fun n => floorTo n b.intervalMs)
  buckets : ∀ c ∈ b.stored, (b.intervalMs : ℤ) ∣ c.timestamp ∧
    ∃ n, newest = some n ∧ c.timestamp ≤ floorTo n b.intervalMs
  clean : ∀ c ∈ b.stored, ∀ period ∈ ended,
    CandleBuilder.overlaps b.intervalMs c period.1 period.2 = false
  ended_le : ∀ period ∈ ended, ∃ n, newest = some n ∧ period.2 ≤ n
  covered : ∀ n, newest = some n → ∀ period ∈ ended, (floorTo n b.intervalMs : ℚ) ≤ period.2 →
    ∃ hole ∈ b.reached, hole.has (floorTo n b.intervalMs) = true

variable {newest : Option ℚ} {ended : List (ℚ × ℚ)} {b : CandleBuilder}

theorem hasBucket_iff {hole : ReachedBuckets} {bucket : ℤ} :
    hole.has bucket = true ↔ hole.first ≤ bucket ∧ bucket < hole.limit := by
  unfold ReachedBuckets.has
  rw [Bool.and_eq_true, decide_eq_true_eq, decide_eq_true_eq]

/-- A candle after a tick is one of before, or the bucket's own. -/
theorem mem_placed {bucket : ℤ} {value : ℚ} {isNewest : Bool} {c : Candle}
    (h : c ∈ b.placed bucket value isNewest) : c ∈ b.stored ∨ c.timestamp = bucket := by
  have happended : c ∈ b.appended (b.opened bucket value) → c ∈ b.stored ∨ c.timestamp = bucket := by
    intro hmem
    rcases List.mem_append.mp (List.mem_of_mem_drop hmem) with hold | hnew
    · exact .inl hold
    · rw [List.mem_singleton.mp hnew]
      exact .inr rfl
  unfold CandleBuilder.placed at h
  split at h
  · rename_i current hlast
    split at h
    · rename_i hbucket
      rcases List.mem_append.mp h with hold | hnew
      · exact .inl (List.dropLast_subset _ hold)
      · rw [List.mem_singleton.mp hnew]
        exact .inr hbucket
    · exact happended h
  · exact happended h

/-- **A tick that is not late**, when every ended period that reaches its bucket has marked it. -/
theorem HoleInv.accept (hpos : 0 < b.intervalMs) {tick : Tick}
    (hwatermark : b.watermark = newest)
    (hcurrent : ∀ n, newest = some n → floorTo n b.intervalMs ≤ floorTo tick.timestamp b.intervalMs)
    (hbuckets : ∀ c ∈ b.stored, (b.intervalMs : ℤ) ∣ c.timestamp ∧
      ∃ n, newest = some n ∧ c.timestamp ≤ floorTo n b.intervalMs)
    (hclean : ∀ c ∈ b.stored, ∀ period ∈ ended,
      CandleBuilder.overlaps b.intervalMs c period.1 period.2 = false)
    (hended : ∀ period ∈ ended, period.2 ≤ newest.elim tick.timestamp (max · tick.timestamp))
    (hcovered : ∀ period ∈ ended, (floorTo tick.timestamp b.intervalMs : ℚ) ≤ period.2 →
      ∃ hole ∈ b.reached, hole.has (floorTo tick.timestamp b.intervalMs) = true) :
    HoleInv (some (newest.elim tick.timestamp (max · tick.timestamp))) ended (b.accept tick) := by
  have hbucket : floorTo (newest.elim tick.timestamp (max · tick.timestamp)) b.intervalMs =
      floorTo tick.timestamp b.intervalMs := by
    cases newest with
    | none => rfl
    | some n =>
      show floorTo (max n tick.timestamp) b.intervalMs = _
      rcases le_total n tick.timestamp with hle | hle
      · rw [max_eq_right hle]
      · rw [max_eq_left hle]
        exact le_antisymm (hcurrent n rfl) (floorTo_mono hpos hle)
  refine ⟨hpos, ?_, ?_, ?_, ?_, ?_, ?_⟩
  · show (if b.watermark.all (fun w => decide (w ≤ tick.timestamp)) then some tick.timestamp
      else b.watermark) = _
    rw [hwatermark]
    cases newest with
    | none => rfl
    | some n =>
      show (if decide (n ≤ tick.timestamp) = true then _ else _) = some (max n tick.timestamp)
      by_cases hle : n ≤ tick.timestamp
      · rw [decide_eq_true hle, if_pos rfl, max_eq_right hle]
      · rw [decide_eq_false hle, if_neg (by simp), max_eq_left (not_le.mp hle).le]
  · show some (floorTo tick.timestamp b.intervalMs) = some (floorTo _ b.intervalMs)
    rw [hbucket]
  · intro c hc
    have hold : c ∈ b.stored → (b.intervalMs : ℤ) ∣ c.timestamp ∧
        ∃ n, some (newest.elim tick.timestamp (max · tick.timestamp)) = some n ∧
          c.timestamp ≤ floorTo n b.intervalMs := by
      intro hmem
      obtain ⟨hdvd, n, hn, hle⟩ := hbuckets c hmem
      refine ⟨hdvd, _, rfl, ?_⟩
      rw [hbucket]
      exact hle.trans (hcurrent n hn)
    have hc' : c ∈ (if b.reached.any (fun hole => hole.has (floorTo tick.timestamp b.intervalMs))
        then b.stored else b.placed _ _ _) := hc
    split_ifs at hc'
    · exact hold hc'
    · rcases mem_placed hc' with hmem | heq
      · exact hold hmem
      · refine ⟨heq ▸ dvd_floorTo _, _, rfl, ?_⟩
        show c.timestamp ≤ floorTo _ b.intervalMs
        rw [hbucket, heq]
  · intro c hc period hperiod
    have hc' : c ∈ (if b.reached.any (fun hole => hole.has (floorTo tick.timestamp b.intervalMs))
        then b.stored else b.placed _ _ _) := hc
    split_ifs at hc' with hholed
    · exact hclean c hc' period hperiod
    · rcases mem_placed hc' with hmem | heq
      · exact hclean c hmem period hperiod
      · -- a new candle's bucket that a period reached would have been marked
        by_contra hover
        rw [Bool.not_eq_false] at hover
        unfold CandleBuilder.overlaps at hover
        rw [Bool.and_eq_true, decide_eq_true_eq, decide_eq_true_eq, heq] at hover
        obtain ⟨hole, hhole, hhas⟩ := hcovered period hperiod hover.1
        exact hholed (List.any_eq_true.mpr ⟨hole, hhole, hhas⟩)
  · intro period hperiod
    exact ⟨_, rfl, hended period hperiod⟩
  · intro n hn period hperiod hle
    obtain rfl := Option.some.inj hn
    have hle' : (floorTo tick.timestamp b.intervalMs : ℚ) ≤ period.2 := hbucket ▸ hle
    obtain ⟨hole, hhole, hhas⟩ := hcovered period hperiod hle'
    refine ⟨hole, List.mem_filter.mpr ⟨hhole, ?_⟩, ?_⟩
    · exact decide_eq_true (hasBucket_iff.mp hhas).2
    · show hole.has (floorTo _ b.intervalMs) = true
      rw [hbucket]
      exact hhas

/-- **A tick that opens or ends no period.** -/
theorem HoleInv.push (h : HoleInv newest ended b) {tick : Tick} {receivedAtMs : ℚ}
    (hproblem : tickProblem tick receivedAtMs = none) :
    HoleInv (some (newest.elim tick.timestamp (max · tick.timestamp))) ended (b.push tick receivedAtMs) := by
  have hpos := h.interval_pos
  unfold CandleBuilder.push
  rw [hproblem]
  simp only
  split_ifs with hlate
  · -- a late tick is older than the newest one
    rw [h.current] at hlate
    cases newest with
    | none => exact nomatch hlate
    | some n =>
      have hlt : floorTo tick.timestamp b.intervalMs < floorTo n b.intervalMs := by simpa using hlate
      have hle : tick.timestamp ≤ n := by
        by_contra hnot
        exact absurd (floorTo_mono hpos (not_le.mp hnot).le) (not_le.mpr hlt)
      show HoleInv (some (max n tick.timestamp)) ended _
      rw [max_eq_left hle]
      exact ⟨hpos, h.watermark, h.current, h.buckets, h.clean, h.ended_le, h.covered⟩
  · have hcurrent : ∀ n, newest = some n → floorTo n b.intervalMs ≤ floorTo tick.timestamp b.intervalMs := by
      rintro n rfl
      rw [h.current] at hlate
      simpa using hlate
    refine HoleInv.accept hpos h.watermark hcurrent h.buckets h.clean ?_ ?_
    · intro period hperiod
      obtain ⟨n, rfl, hle⟩ := h.ended_le period hperiod
      exact hle.trans (le_max_left _ _)
    · intro period hperiod hle
      obtain ⟨n, rfl, hn⟩ := h.ended_le period hperiod
      have hbucket : floorTo tick.timestamp b.intervalMs = floorTo n b.intervalMs :=
        le_antisymm (le_floorTo hpos (dvd_floorTo _) (hle.trans hn)) (hcurrent n rfl)
      rw [hbucket] at hle ⊢
      exact h.covered n rfl period hperiod hle

/-- **The first tick past a drop's mark** marks the hole and ends the period. -/
theorem HoleInv.markHole {mark : ℚ} (h : HoleInv (some mark) ended b) {tick : Tick} {receivedAtMs : ℚ}
    (hproblem : tickProblem tick receivedAtMs = none) (hlt : mark < tick.timestamp) :
    HoleInv (some (max mark tick.timestamp)) (ended ++ [(mark, tick.timestamp)])
      ((b.markHole mark tick.timestamp).push tick receivedAtMs) := by
  have hpos := h.interval_pos
  have hmono := floorTo_mono hpos hlt.le
  have hnotLate : (b.markHole mark tick.timestamp).currentBucket.any (fun current =>
      decide (floorTo tick.timestamp (b.markHole mark tick.timestamp).intervalMs < current)) = false := by
    show b.currentBucket.any (fun current => decide (floorTo tick.timestamp b.intervalMs < current)) = false
    rw [h.current]
    simpa using hmono
  unfold CandleBuilder.push
  rw [hproblem]
  simp only
  rw [hnotLate, if_neg (by simp)]
  show HoleInv (some (Option.elim (some mark) tick.timestamp (max · tick.timestamp))) _
    ((b.markHole mark tick.timestamp).accept tick)
  have hpos' : 0 < (b.markHole mark tick.timestamp).intervalMs := hpos
  refine HoleInv.accept hpos' h.watermark ?_ ?_ ?_ ?_ ?_
  · rintro n hn
    obtain rfl := Option.some.inj hn
    exact hmono
  · intro c hc
    exact h.buckets c (List.mem_of_mem_filter hc)
  · intro c hc period hperiod
    rcases List.mem_append.mp hperiod with hold | hnew
    · exact h.clean c (List.mem_of_mem_filter hc) period hold
    · rw [List.mem_singleton.mp hnew]
      have hkept := List.of_mem_filter hc
      rw [Bool.not_eq_true'] at hkept
      exact hkept
  · intro period hperiod
    show period.2 ≤ max mark tick.timestamp
    rcases List.mem_append.mp hperiod with hold | hnew
    · obtain ⟨n, hn, hle⟩ := h.ended_le period hold
      obtain rfl := Option.some.inj hn
      exact hle.trans (le_max_left _ _)
    · rw [List.mem_singleton.mp hnew]
      exact le_max_right _ _
  · intro period hperiod hle
    rcases List.mem_append.mp hperiod with hold | hnew
    · obtain ⟨n, hn, hn'⟩ := h.ended_le period hold
      obtain rfl := Option.some.inj hn
      have hbucket : floorTo tick.timestamp b.intervalMs = floorTo mark b.intervalMs :=
        le_antisymm (le_floorTo hpos (dvd_floorTo _) (hle.trans hn')) hmono
      have hle' : (floorTo mark b.intervalMs : ℚ) ≤ period.2 := by
        rw [← hbucket]
        exact hle
      obtain ⟨hole, hhole, hhas⟩ := h.covered mark rfl period hold hle'
      refine ⟨hole, List.mem_append_left _ hhole, ?_⟩
      show hole.has (floorTo tick.timestamp b.intervalMs) = true
      rw [hbucket]
      exact hhas
    · refine ⟨_, List.mem_append_right _ (List.mem_singleton.mpr rfl), hasBucket_iff.mpr ⟨hmono, ?_⟩⟩
      have hnat : (0 : ℤ) < b.intervalMs := by exact_mod_cast hpos
      show floorTo tick.timestamp b.intervalMs < floorTo tick.timestamp b.intervalMs + b.intervalMs
      omega

/-- A pair first heard after a drop loses its first bucket. -/
theorem HoleInv.markFirst (h : HoleInv none ended b) (fromMs toMs : ℚ) :
    HoleInv none ended (b.markHole fromMs toMs) := by
  refine ⟨h.interval_pos, h.watermark, h.current, ?_, ?_, h.ended_le, fun n hn => nomatch hn⟩
  · intro c hc
    exact h.buckets c (List.mem_of_mem_filter hc)
  · intro c hc
    exact h.clean c (List.mem_of_mem_filter hc)

/-- A builder before its first tick. -/
theorem HoleInv.start {intervalMs digits capacity : ℕ} (hpos : 0 < intervalMs) :
    HoleInv none [] { intervalMs, digits, capacity } := by
  refine ⟨hpos, rfl, rfl, ?_, ?_, ?_, fun n hn => nomatch hn⟩
  · intro c hc
    exact nomatch hc
  · intro c hc
    exact nomatch hc
  · intro period hperiod
    exact nomatch hperiod

end Holes

end Binarius
