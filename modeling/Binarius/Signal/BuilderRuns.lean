import Mathlib.Tactic
import Binarius.Lib.Runs
import Binarius.Signal.CandleBuilder

/-!
# Signal.BuilderRuns — the candle builder over every sequence of ticks and holes (packages/signal/src/ticks.ts)

* `StoredOk`: a builder's candles stand in ascending buckets.
* `acceptedTicks`, `newestOf`: the ticks that were neither late nor refused, and the newest of them.
* `FedOk`: what a builder is after the ticks accepted and the holes marked; `FedOk.push`, `FedOk.markHole`.
* `candle_invariant`: **after every sequence the candles are ascending, aligned and few enough, hold their
  open and close, open at the newest tick before their first, and overlap no hole**.
-/

namespace Binarius

open Lib

/-! ## The builders -/

/-- A builder's candles stand in ascending buckets, none after the current one. -/
structure StoredOk (b : CandleBuilder) : Prop where
  buckets : ∀ candle ∈ b.stored, (b.intervalMs : ℤ) ∣ candle.timestamp ∧
    ∃ current, b.currentBucket = some current ∧ candle.timestamp ≤ current
  ascending : (b.stored.map Candle.timestamp).Pairwise (· < ·)

section Builders

variable {b : CandleBuilder}

theorem StoredOk.start (intervalMs digits capacity : ℕ) :
    StoredOk ({ intervalMs, digits, capacity } : CandleBuilder) :=
  ⟨fun _ h => absurd h List.not_mem_nil, List.Pairwise.nil⟩

/-- A hole takes candles away. -/
theorem StoredOk.markHole (h : StoredOk b) (fromMs toMs : ℚ) : StoredOk (b.markHole fromMs toMs) := by
  refine ⟨fun candle hcandle => h.buckets candle (List.mem_of_mem_filter hcandle), ?_⟩
  exact h.ascending.sublist (List.filter_sublist.map _)

/-- The candles after a tick that is not late, in ascending buckets. -/
theorem StoredOk.placed (h : StoredOk b) {bucket : ℤ} (hcurrent : ∀ current, b.currentBucket = some
    current →
    current ≤ bucket) (value : ℚ) (newest : Bool) :
    ((b.placed bucket value newest).map Candle.timestamp).Pairwise (· < ·) := by
  have happended : (∀ candle ∈ b.stored, candle.timestamp < bucket) →
      ((b.appended (b.opened bucket value)).map Candle.timestamp).Pairwise (· < ·) := by
    intro hless
    unfold CandleBuilder.appended
    refine List.Pairwise.sublist ((List.drop_sublist _ _).map _) ?_
    rw [List.map_append, List.pairwise_append]
    refine ⟨h.ascending, List.pairwise_singleton _ _, ?_⟩
    intro t ht t' ht'
    obtain ⟨candle, hcandle, rfl⟩ := List.mem_map.mp ht
    rw [List.map_singleton, List.mem_singleton] at ht'
    rw [ht']
    exact hless candle hcandle
  unfold CandleBuilder.placed
  cases hlast : b.stored.getLast? with
  | none =>
    refine happended (fun candle hcandle => ?_)
    rw [List.getLast?_eq_none_iff.mp hlast] at hcandle
    exact absurd hcandle List.not_mem_nil
  | some current =>
    have hsplit : b.stored = b.stored.dropLast ++ [current] := (List.dropLast_append_getLast? _ hlast).symm
    simp only
    split_ifs with hsame
    · have hascending := h.ascending
      rw [hsplit, List.map_append] at hascending
      rw [List.map_append]
      exact hascending
    · refine happended (fun candle hcandle => ?_)
      have hascending := h.ascending
      rw [hsplit, List.map_append, List.pairwise_append] at hascending
      have hmem : current ∈ b.stored := List.mem_of_getLast? hlast
      obtain ⟨-, bound, hbound, hle⟩ := h.buckets current hmem
      have hlt : current.timestamp < bucket := lt_of_le_of_ne (hle.trans (hcurrent bound hbound)) hsame
      rw [hsplit] at hcandle
      rcases List.mem_append.mp hcandle with hold | hnew
      · refine lt_trans (hascending.2.2 candle.timestamp (List.mem_map_of_mem hold) current.timestamp
          ?_) hlt
        exact List.mem_map_of_mem List.mem_cons_self
      · rw [List.mem_singleton.mp hnew]
        exact hlt

/-- **A tick.** -/
theorem StoredOk.push (h : StoredOk b) (tick : Tick) (receivedAtMs : ℚ) :
    StoredOk (b.push tick receivedAtMs) := by
  unfold CandleBuilder.push
  split
  · exact ⟨h.buckets, h.ascending⟩
  · exact ⟨h.buckets, h.ascending⟩
  · split_ifs with hlate
    · exact ⟨h.buckets, h.ascending⟩
    · have hcurrent : ∀ current, b.currentBucket = some current → current ≤ floorTo tick.timestamp
        b.intervalMs := by
        intro current heq
        rw [heq] at hlate
        simpa using hlate
      have hstays : ∀ candle ∈ b.stored, (b.intervalMs : ℤ) ∣ candle.timestamp ∧ ∃ current,
          some (floorTo tick.timestamp b.intervalMs) = some current ∧ candle.timestamp ≤ current := by
        intro candle hcandle
        obtain ⟨hdvd, current, heq, hle⟩ := h.buckets candle hcandle
        exact ⟨hdvd, _, rfl, hle.trans (hcurrent current heq)⟩
      unfold CandleBuilder.accept
      by_cases hholed : (b.reached.any (fun hole => hole.has (floorTo tick.timestamp b.intervalMs))) = true
      · simp only [hholed, if_true]
        exact ⟨hstays, h.ascending⟩
      · simp only [hholed, Bool.false_eq_true, if_false]
        refine ⟨fun candle hcandle => ?_, h.placed hcurrent _ _⟩
        rcases mem_placed hcandle with hold | hnew
        · exact hstays candle hold
        · show (b.intervalMs : ℤ) ∣ candle.timestamp ∧ _
          rw [hnew]
          exact ⟨dvd_floorTo _, _, rfl, le_rfl⟩

theorem push_ms (b : CandleBuilder) (tick : Tick) (receivedAtMs : ℚ) :
    (b.push tick receivedAtMs).intervalMs = b.intervalMs := by
  unfold CandleBuilder.push
  split
  · rfl
  · rfl
  · split_ifs <;> rfl

end Builders

/-! ## What was fed -/

/-- The writers of a builder. -/
inductive BuilderAct
  | push (tick : Tick) (receivedAtMs : ℚ)
  | markHole (fromMs toMs : ℚ)

/-- A hole that ends before it starts is refused. -/
def CandleBuilder.fed (b : CandleBuilder) : BuilderAct → CandleBuilder
  | .push tick receivedAtMs => b.push tick receivedAtMs
  | .markHole fromMs toMs => if toMs < fromMs then b else b.markHole fromMs toMs

/-- The holes marked, in order. -/
def markedHoles (acts : List BuilderAct) : List (ℚ × ℚ) :=
  acts.filterMap fun a => match a with
    | .push _ _ => none
    | .markHole fromMs toMs => if toMs < fromMs then none else some (fromMs, toMs)

/-- A tick is accepted that is not refused, its bucket not before the one accepted last. -/
def acceptInto (intervalMs : ℕ) (accepted : List Tick) : BuilderAct → List Tick
  | .push tick receivedAtMs =>
    if tickProblem tick receivedAtMs = none ∧ accepted.getLast?.all (fun last =>
        decide (floorTo last.timestamp intervalMs ≤ floorTo tick.timestamp intervalMs)) = true then
      accepted ++ [tick]
    else accepted
  | .markHole _ _ => accepted

/-- The ticks accepted, in order. -/
def acceptedTicks (intervalMs : ℕ) (acts : List BuilderAct) : List Tick :=
  acts.foldl (acceptInto intervalMs) []

/-- A tick at the newest one's time or after it is newer. -/
def newerOf (newest : Option Tick) (tick : Tick) : Option Tick :=
  if newest.all (fun n => decide (n.timestamp ≤ tick.timestamp)) then some tick else newest

/-- The newest of the ticks: of the greatest time, the last to arrive of several. -/
def newestOf (ticks : List Tick) : Option Tick := ticks.foldl newerOf none

theorem newestOf_snoc (ticks : List Tick) (tick : Tick) :
    newestOf (ticks ++ [tick]) = newerOf (newestOf ticks) tick := by
  simp [newestOf, List.foldl_append]

theorem newestOf_eq_none {ticks : List Tick} (h : newestOf ticks = none) : ticks = [] := by
  rcases List.eq_nil_or_concat ticks with rfl | ⟨ticks, tick, rfl⟩
  · rfl
  · rw [List.concat_eq_append, newestOf_snoc] at h
    unfold newerOf at h
    cases hnewest : newestOf ticks with
    | none => simp [hnewest] at h
    | some n =>
      rw [hnewest] at h
      split_ifs at h

/-- The newest tick has the greatest time, and every later arrival an earlier one. -/
theorem newestOf_spec {ticks : List Tick} {n : Tick} (h : newestOf ticks = some n) :
    ∃ before after, ticks = before ++ n :: after ∧ (∀ t ∈ before, t.timestamp ≤ n.timestamp) ∧
      ∀ t ∈ after, t.timestamp < n.timestamp := by
  induction ticks using List.reverseRecOn generalizing n with
  | nil => cases h
  | append_singleton ticks tick ih =>
    rw [newestOf_snoc] at h
    unfold newerOf at h
    cases hnewest : newestOf ticks with
    | none =>
      rw [hnewest] at h
      cases h
      refine ⟨ticks, [], rfl, fun t ht => ?_, fun t ht => by cases ht⟩
      rw [newestOf_eq_none hnewest] at ht
      cases ht
    | some m =>
      obtain ⟨before, after, rfl, hbefore, hafter⟩ := ih hnewest
      rw [hnewest] at h
      split_ifs at h with hle
      · have hle' : m.timestamp ≤ tick.timestamp := by simpa using hle
        cases h
        refine ⟨before ++ m :: after, [], rfl, fun t ht => ?_, fun t ht => by cases ht⟩
        rcases List.mem_append.mp ht with hold | hrest
        · exact (hbefore t hold).trans hle'
        · rcases List.mem_cons.mp hrest with rfl | hrest
          · exact hle'
          · exact (hafter t hrest).le.trans hle'
      · have hlt : tick.timestamp < m.timestamp := by simpa using hle
        cases h
        refine ⟨before, after ++ [tick], by simp, hbefore, fun t ht => ?_⟩
        rcases List.mem_append.mp ht with hold | hnew
        · exact hafter t hold
        · rw [List.mem_singleton.mp hnew]
          exact hlt

/-! ## What a builder is -/

/-- The candle opens at the value of the newest tick accepted before its bucket's first, which is its own
first tick when there is none. -/
def OpensAt (intervalMs digits : ℕ) (accepted : List Tick) (c : Candle) : Prop :=
  ∃ before first after, accepted = before ++ first :: after ∧
    floorTo first.timestamp intervalMs = c.timestamp ∧
    (∀ t ∈ before, floorTo t.timestamp intervalMs ≠ c.timestamp) ∧
    c.open = toFixed digits ((newestOf before).getD first).price

/-- Open and close are between low and high. -/
structure Shaped (c : Candle) : Prop where
  lowOpen : c.low ≤ c.open
  lowClose : c.low ≤ c.close
  openHigh : c.open ≤ c.high
  closeHigh : c.close ≤ c.high

/-- The buckets a marked hole reaches. -/
def holeBuckets (intervalMs : ℕ) (hole : ℚ × ℚ) : ReachedBuckets where
  first := floorTo hole.1 intervalMs
  limit := floorTo hole.2 intervalMs + intervalMs

/-- **What a builder is** after the ticks accepted and the holes marked. -/
structure FedOk (accepted : List Tick) (holes : List (ℚ × ℚ)) (b : CandleBuilder) : Prop where
  stored : StoredOk b
  length : b.stored.length ≤ b.capacity
  shaped : ∀ c ∈ b.stored, Shaped c
  opens : ∀ c ∈ b.stored, OpensAt b.intervalMs b.digits accepted c
  current : b.currentBucket = accepted.getLast?.map (fun last => floorTo last.timestamp b.intervalMs)
  watermark : b.watermark = (newestOf accepted).map Tick.timestamp
  lastClose : b.lastClose = (newestOf accepted).map (fun n => toFixed b.digits n.price)
  /-- no accepted tick is after the current bucket -/
  behind : ∀ t ∈ accepted, ∀ current, b.currentBucket = some current →
    floorTo t.timestamp b.intervalMs ≤ current
  /-- the current bucket has its candle, or a hole reaches it -/
  present : ∀ current, b.currentBucket = some current →
    (∃ c ∈ b.stored, c.timestamp = current) ∨ ∃ hole ∈ b.reached, hole.has current = true
  clean : ∀ c ∈ b.stored, ∀ hole ∈ holes, CandleBuilder.overlaps b.intervalMs c hole.1 hole.2 = false
  /-- a hole still closes its buckets, or they are behind the current one -/
  reached : ∀ hole ∈ holes, holeBuckets b.intervalMs hole ∈ b.reached ∨
    ∃ current, b.currentBucket = some current ∧ (holeBuckets b.intervalMs hole).limit ≤ current

section Fed

variable {b : CandleBuilder} {accepted : List Tick} {holes : List (ℚ × ℚ)}

theorem fedOk_start (intervalMs digits capacity : ℕ) :
    FedOk [] [] ({ intervalMs, digits, capacity } : CandleBuilder) where
  stored := StoredOk.start intervalMs digits capacity
  length := Nat.zero_le _
  shaped _ h := by cases h
  opens _ h := by cases h
  current := rfl
  watermark := rfl
  lastClose := rfl
  behind _ h := by cases h
  present _ h := by cases h
  clean _ h := by cases h
  reached _ h := by cases h

/-- A hole that overlaps a candle reaches its bucket. -/
theorem overlaps_has (hpos : 0 < b.intervalMs) {c : Candle} (hdvd : (b.intervalMs : ℤ) ∣ c.timestamp)
    (hole : ℚ × ℚ) (h : CandleBuilder.overlaps b.intervalMs c hole.1 hole.2 = true) :
    (holeBuckets b.intervalMs hole).has c.timestamp = true := by
  unfold CandleBuilder.overlaps at h
  rw [Bool.and_eq_true, decide_eq_true_eq, decide_eq_true_eq] at h
  have hstep : (0 : ℤ) < b.intervalMs := by exact_mod_cast hpos
  rw [hasBucket_iff]
  constructor
  · -- both are multiples of the interval
    have hlt : floorTo hole.1 b.intervalMs < c.timestamp + b.intervalMs := by
      have hle := (floorTo_le hpos hole.1).trans_lt h.2
      exact_mod_cast hle
    obtain ⟨k, hk⟩ := hdvd
    obtain ⟨m, hm⟩ : (b.intervalMs : ℤ) ∣ floorTo hole.1 b.intervalMs := dvd_floorTo _
    show floorTo hole.1 b.intervalMs ≤ c.timestamp
    rw [hk, hm] at hlt ⊢
    have hlt' : (b.intervalMs : ℤ) * m < b.intervalMs * (k + 1) := by
      rw [mul_add, mul_one]
      exact hlt
    exact mul_le_mul_of_nonneg_left (Int.lt_add_one_iff.mp (lt_of_mul_lt_mul_left hlt' hstep.le)) hstep.le
  · show c.timestamp < floorTo hole.2 b.intervalMs + b.intervalMs
    have hle := le_floorTo hpos hdvd h.1
    omega

/-! ### A hole -/

theorem FedOk.markHole (h : FedOk accepted holes b) (hpos : 0 < b.intervalMs) (fromMs toMs : ℚ) :
    FedOk accepted (holes ++ [(fromMs, toMs)]) (b.markHole fromMs toMs) where
  stored := h.stored.markHole fromMs toMs
  length := (List.length_filter_le _ _).trans h.length
  shaped c hc := h.shaped c (List.mem_of_mem_filter hc)
  opens c hc := h.opens c (List.mem_of_mem_filter hc)
  current := h.current
  watermark := h.watermark
  lastClose := h.lastClose
  behind := h.behind
  present current hcurrent := by
    rcases h.present current hcurrent with ⟨c, hc, htime⟩ | ⟨hole, hhole, hhas⟩
    · cases hover : CandleBuilder.overlaps b.intervalMs c fromMs toMs with
      | false =>
        refine Or.inl ⟨c, List.mem_filter.mpr ⟨hc, ?_⟩, htime⟩
        rw [hover]
        rfl
      | true =>
        right
        refine ⟨_, List.mem_append_right _ (List.mem_singleton.mpr rfl), ?_⟩
        rw [← htime]
        exact overlaps_has hpos (h.stored.buckets c hc).1 (fromMs, toMs) hover
    · exact Or.inr ⟨hole, List.mem_append_left _ hhole, hhas⟩
  clean c hc hole hhole := by
    obtain ⟨hmem, hkept⟩ := List.mem_filter.mp hc
    rcases List.mem_append.mp hhole with hold | hnew
    · exact h.clean c hmem hole hold
    · rw [List.mem_singleton.mp hnew]
      exact (Bool.not_eq_true' _).mp hkept
  reached hole hhole := by
    rcases List.mem_append.mp hhole with hold | hnew
    · exact (h.reached hole hold).imp (List.mem_append_left _) id
    · left
      rw [List.mem_singleton.mp hnew]
      exact List.mem_append_right _ (List.mem_singleton.mpr rfl)

/-! ### A tick -/

theorem OpensAt.snoc {intervalMs digits : ℕ} {c : Candle} (h : OpensAt intervalMs digits accepted c)
    (tick : Tick) : OpensAt intervalMs digits (accepted ++ [tick]) c := by
  obtain ⟨before, first, after, rfl, hbucket, hfirst, hopen⟩ := h
  exact ⟨before, first, after ++ [tick], by simp, hbucket, hfirst, hopen⟩

/-- A candle after a tick: one of before, the bucket's own grown, or a new one where it had none. -/
theorem placed_cases {bucket : ℤ} {value : ℚ} {newest : Bool} {c : Candle}
    (h : c ∈ b.placed bucket value newest) :
    c ∈ b.stored ∨
      (∃ current ∈ b.stored, current.timestamp = bucket ∧ c = CandleBuilder.grow current value newest) ∨
      (c = b.opened bucket value ∧ ∀ current, b.stored.getLast? = some current → current.timestamp ≠ bucket) := by
  have happended : c ∈ b.appended (b.opened bucket value) → c ∈ b.stored ∨ c = b.opened bucket value := by
    intro hmem
    rcases List.mem_append.mp (List.mem_of_mem_drop hmem) with hold | hnew
    · exact Or.inl hold
    · exact Or.inr (List.mem_singleton.mp hnew)
  unfold CandleBuilder.placed at h
  cases hlast : b.stored.getLast? with
  | none =>
    rw [hlast] at h
    rcases happended h with hold | hnew
    · exact Or.inl hold
    · exact Or.inr (Or.inr ⟨hnew, fun current hcurrent => by cases hcurrent⟩)
  | some current =>
    rw [hlast] at h
    simp only at h
    split_ifs at h with hbucket
    · rcases List.mem_append.mp h with hold | hnew
      · exact Or.inl (List.dropLast_subset _ hold)
      · exact Or.inr (Or.inl ⟨current, List.mem_of_getLast? hlast, hbucket, List.mem_singleton.mp hnew⟩)
    · rcases happended h with hold | hnew
      · exact Or.inl hold
      · right
        right
        refine ⟨hnew, fun current' hcurrent' => ?_⟩
        cases hcurrent'
        exact hbucket

theorem placed_length {bucket : ℤ} {value : ℚ} {newest : Bool} (h : b.stored.length ≤ b.capacity) :
    (b.placed bucket value newest).length ≤ b.capacity := by
  have happended : (b.appended (b.opened bucket value)).length ≤ b.capacity := by
    unfold CandleBuilder.appended
    rw [List.length_drop]
    omega
  unfold CandleBuilder.placed
  cases hlast : b.stored.getLast? with
  | none => exact happended
  | some current =>
    simp only
    split_ifs
    · have hpos : 0 < b.stored.length := List.length_pos_of_mem (List.mem_of_getLast? hlast)
      rw [List.length_append, List.length_dropLast, List.length_singleton]
      omega
    · exact happended

/-- After a tick the bucket has its candle. -/
theorem placed_present (hcapacity : 0 < b.capacity) (bucket : ℤ) (value : ℚ) (newest : Bool) :
    ∃ c ∈ b.placed bucket value newest, c.timestamp = bucket := by
  have happended : ∃ c ∈ b.appended (b.opened bucket value), c.timestamp = bucket := by
    refine ⟨b.opened bucket value, ?_, rfl⟩
    unfold CandleBuilder.appended
    have hlen : (b.stored ++ [b.opened bucket value]).length - b.capacity ≤ b.stored.length := by
      rw [List.length_append, List.length_singleton]
      omega
    rw [List.drop_append_of_le_length hlen]
    exact List.mem_append_right _ (List.mem_singleton.mpr rfl)
  unfold CandleBuilder.placed
  cases hlast : b.stored.getLast? with
  | none => exact happended
  | some current =>
    simp only
    split_ifs with hbucket
    · exact ⟨_, List.mem_append_right _ (List.mem_singleton.mpr rfl), hbucket⟩
    · exact happended

theorem shaped_grow {c : Candle} (h : Shaped c) (value : ℚ) (newest : Bool) :
    Shaped (CandleBuilder.grow c value newest) where
  lowOpen := (min_le_left _ _).trans h.lowOpen
  lowClose := by
    cases newest with
    | true => exact min_le_right _ _
    | false => exact (min_le_left _ _).trans h.lowClose
  openHigh := h.openHigh.trans (le_max_left _ _)
  closeHigh := by
    cases newest with
    | true => exact le_max_right _ _
    | false => exact h.closeHigh.trans (le_max_left _ _)

theorem shaped_opened (b : CandleBuilder) (bucket : ℤ) (value : ℚ) : Shaped (b.opened bucket value) where
  lowOpen := min_le_left _ _
  lowClose := min_le_right _ _
  openHigh := le_max_left _ _
  closeHigh := le_max_right _ _

/-- The candle of the current bucket is the last one. -/
theorem FedOk.last (h : FedOk accepted holes b) {current : ℤ} (hcurrent : b.currentBucket = some current)
    {c : Candle} (hc : c ∈ b.stored) (htime : c.timestamp = current) :
    ∃ last, b.stored.getLast? = some last ∧ last.timestamp = current := by
  cases hlast : b.stored.getLast? with
  | none =>
    rw [List.getLast?_eq_none_iff.mp hlast] at hc
    cases hc
  | some last =>
    refine ⟨last, rfl, ?_⟩
    obtain ⟨-, bound, hbound, hle⟩ := h.stored.buckets last (List.mem_of_getLast? hlast)
    rw [hcurrent] at hbound
    cases hbound
    refine le_antisymm hle ?_
    have hascending := h.stored.ascending
    rw [← List.dropLast_append_getLast? last hlast] at hascending hc
    rw [List.map_append, List.pairwise_append] at hascending
    rcases List.mem_append.mp hc with hold | hnew
    · have hlt := hascending.2.2 c.timestamp (List.mem_map_of_mem hold) last.timestamp
        (List.mem_map_of_mem List.mem_cons_self)
      rw [← htime]
      exact hlt.le
    · rw [← htime, List.mem_singleton.mp hnew]

/-- A new candle's bucket had no tick before. -/
theorem FedOk.firstTick (h : FedOk accepted holes b) {bucket : ℤ}
    (hcurrent : ∀ current, b.currentBucket = some current → current ≤ bucket)
    (hunholed : ∀ hole ∈ b.reached, hole.has bucket = false)
    (hlast : ∀ last, b.stored.getLast? = some last → last.timestamp ≠ bucket) :
    ∀ t ∈ accepted, floorTo t.timestamp b.intervalMs ≠ bucket := by
  intro t ht heq
  cases hbucket : b.currentBucket with
  | none =>
    rw [h.current, Option.map_eq_none_iff, List.getLast?_eq_none_iff] at hbucket
    exact absurd ht (by rw [hbucket]; exact List.not_mem_nil)
  | some current =>
    have hsame : current = bucket := le_antisymm (hcurrent current hbucket) (heq ▸ h.behind t ht current hbucket)
    rw [hsame] at hbucket
    rcases h.present bucket hbucket with ⟨c, hc, htime⟩ | ⟨hole, hhole, hhas⟩
    · obtain ⟨last, hgetLast, hlastTime⟩ := h.last hbucket hc htime
      exact hlast last hgetLast hlastTime
    · exact absurd hhas (by rw [hunholed hole hhole]; decide)

/-- **A tick that is neither late nor refused.** -/
theorem FedOk.accept (h : FedOk accepted holes b) (hpos : 0 < b.intervalMs) (hcapacity : 0 < b.capacity)
    {tick : Tick} (hstored : StoredOk (b.accept tick))
    (hcurrent : ∀ current, b.currentBucket = some current → current ≤ floorTo tick.timestamp b.intervalMs) :
    FedOk (accepted ++ [tick]) holes (b.accept tick) := by
  have hnewest : b.watermark.all (fun w => decide (w ≤ tick.timestamp)) =
      (newestOf accepted).all (fun n => decide (n.timestamp ≤ tick.timestamp)) := by
    rw [h.watermark, Option.all_map]
  have hmem : ∀ c ∈ (b.accept tick).stored, c ∈ b.stored ∨
      ((∀ hole ∈ b.reached, hole.has (floorTo tick.timestamp b.intervalMs) = false) ∧
        c ∈ b.placed (floorTo tick.timestamp b.intervalMs) (toFixed b.digits tick.price)
          (b.watermark.all (fun w => decide (w ≤ tick.timestamp)))) := by
    intro c hc
    have hc' : c ∈ (if b.reached.any (fun hole => hole.has (floorTo tick.timestamp b.intervalMs))
        then b.stored else b.placed _ _ _) := hc
    split_ifs at hc' with hholed
    · exact Or.inl hc'
    · right
      refine ⟨fun hole hhole => ?_, hc'⟩
      by_contra hhas
      exact hholed (List.any_eq_true.mpr ⟨hole, hhole, by simpa using hhas⟩)
  refine ⟨hstored, ?_, ?_, ?_, ?_, ?_, ?_, ?_, ?_, ?_, ?_⟩
  · show (if _ then b.stored else b.placed _ _ _).length ≤ b.capacity
    split_ifs
    · exact h.length
    · exact placed_length h.length
  · intro c hc
    rcases hmem c hc with hold | ⟨-, hplaced⟩
    · exact h.shaped c hold
    · rcases placed_cases hplaced with hold | ⟨current, hcurrentMem, -, rfl⟩ | ⟨rfl, -⟩
      · exact h.shaped c hold
      · exact shaped_grow (h.shaped current hcurrentMem) _ _
      · exact shaped_opened b _ _
  · intro c hc
    rcases hmem c hc with hold | ⟨hunholed, hplaced⟩
    · exact (h.opens c hold).snoc tick
    · rcases placed_cases hplaced with hold | ⟨current, hcurrentMem, -, rfl⟩ | ⟨rfl, hlast⟩
      · exact (h.opens c hold).snoc tick
      · exact (h.opens current hcurrentMem).snoc tick
      · -- a new candle: this tick is its first, and opens at the last close
        refine ⟨accepted, tick, [], rfl, rfl, h.firstTick hcurrent hunholed hlast, ?_⟩
        show b.lastClose.getD (toFixed b.digits tick.price) = _
        rw [h.lastClose]
        cases newestOf accepted with
        | none => rfl
        | some n => rfl
  · show some (floorTo tick.timestamp b.intervalMs) = _
    rw [List.getLast?_append, List.getLast?_singleton]
    rfl
  · show (if b.watermark.all (fun w => decide (w ≤ tick.timestamp)) then some tick.timestamp
      else b.watermark) = _
    rw [hnewest, newestOf_snoc, newerOf, h.watermark]
    split_ifs
    · rfl
    · rfl
  · show (if b.watermark.all (fun w => decide (w ≤ tick.timestamp)) then some (toFixed b.digits tick.price)
      else b.lastClose) = _
    rw [hnewest, newestOf_snoc, newerOf, h.lastClose]
    split_ifs
    · rfl
    · rfl
  · intro t ht current hbucket
    have hbucket' : some (floorTo tick.timestamp b.intervalMs) = some current := hbucket
    rw [← Option.some.inj hbucket']
    rcases List.mem_append.mp ht with hold | hnew
    · cases hold' : b.currentBucket with
      | none =>
        rw [h.current, Option.map_eq_none_iff, List.getLast?_eq_none_iff] at hold'
        rw [hold'] at hold
        cases hold
      | some before => exact (h.behind t hold before hold').trans (hcurrent before hold')
    · rw [List.mem_singleton.mp hnew]
      exact le_refl _
  · intro current hbucket
    have hbucket' : some (floorTo tick.timestamp b.intervalMs) = some current := hbucket
    rw [← Option.some.inj hbucket']
    by_cases hholed : b.reached.any (fun hole => hole.has (floorTo tick.timestamp b.intervalMs)) = true
    · obtain ⟨hole, hhole, hhas⟩ := List.any_eq_true.mp hholed
      refine Or.inr ⟨hole, List.mem_filter.mpr ⟨hhole, ?_⟩, hhas⟩
      exact decide_eq_true (hasBucket_iff.mp hhas).2
    · left
      show ∃ c ∈ (if b.reached.any _ then b.stored else b.placed _ _ _), _
      rw [if_neg hholed]
      exact placed_present hcapacity _ _ _
  · intro c hc hole hhole
    rcases hmem c hc with hold | ⟨hunholed, hplaced⟩
    · exact h.clean c hold hole hhole
    · have hbucket : c ∈ b.stored ∨ c.timestamp = floorTo tick.timestamp b.intervalMs := mem_placed hplaced
      rcases hbucket with hold | hbucket
      · exact h.clean c hold hole hhole
      · -- a hole that overlapped the bucket would still close it
        by_contra hover
        rw [Bool.not_eq_false] at hover
        have hdvd : (b.intervalMs : ℤ) ∣ c.timestamp := hbucket ▸ dvd_floorTo _
        have hhas := overlaps_has hpos hdvd hole hover
        rw [hbucket] at hhas
        rcases h.reached hole hhole with hreached | ⟨current, hcur, hbehind⟩
        · exact absurd hhas (by rw [hunholed _ hreached]; decide)
        · have hlimit := (hasBucket_iff.mp hhas).2
          have hle := hcurrent current hcur
          omega
  · intro hole hhole
    by_cases hlimit : floorTo tick.timestamp b.intervalMs < (holeBuckets b.intervalMs hole).limit
    · rcases h.reached hole hhole with hreached | ⟨current, hcur, hbehind⟩
      · exact Or.inl (List.mem_filter.mpr ⟨hreached, decide_eq_true hlimit⟩)
      · have hle := hcurrent current hcur
        omega
    · exact Or.inr ⟨_, rfl, not_lt.mp hlimit⟩

/-- A tick that is only counted. -/
theorem FedOk.counted (h : FedOk accepted holes b) (late invalid skewed : ℕ) :
    FedOk accepted holes { b with late := late, invalid := invalid, skewed := skewed } :=
  ⟨⟨h.stored.buckets, h.stored.ascending⟩, h.length, h.shaped, h.opens, h.current, h.watermark, h.lastClose,
    h.behind, h.present, h.clean, h.reached⟩

theorem FedOk.push (h : FedOk accepted holes b) (hpos : 0 < b.intervalMs) (hcapacity : 0 < b.capacity)
    (tick : Tick) (receivedAtMs : ℚ) :
    FedOk (acceptInto b.intervalMs accepted (.push tick receivedAtMs)) holes (b.push tick receivedAtMs) := by
  have hstored := h.stored.push tick receivedAtMs
  unfold CandleBuilder.push at hstored ⊢
  cases hproblem : tickProblem tick receivedAtMs with
  | some problem =>
    have hskip : acceptInto b.intervalMs accepted (.push tick receivedAtMs) = accepted := by
      unfold acceptInto
      simp only [hproblem, reduceCtorEq, false_and, if_false]
    rw [hskip]
    cases problem with
    | invalid => exact h.counted b.late (b.invalid + 1) b.skewed
    | skewed => exact h.counted b.late b.invalid (b.skewed + 1)
  | none =>
    rw [hproblem] at hstored
    have hlate : b.currentBucket.any (fun current =>
        decide (floorTo tick.timestamp b.intervalMs < current)) =
        !accepted.getLast?.all (fun last =>
          decide (floorTo last.timestamp b.intervalMs ≤ floorTo tick.timestamp b.intervalMs)) := by
      rw [h.current]
      cases accepted.getLast? with
      | none => rfl
      | some last =>
        show decide _ = !decide _
        rw [← decide_not, decide_eq_decide, not_le]
    have haccepted : acceptInto b.intervalMs accepted (.push tick receivedAtMs) =
        if accepted.getLast?.all (fun last => decide (floorTo last.timestamp b.intervalMs ≤
          floorTo tick.timestamp b.intervalMs)) = true then accepted ++ [tick] else accepted := by
      unfold acceptInto
      simp only [hproblem, true_and]
    rw [haccepted]
    simp only at hstored ⊢
    rw [hlate] at hstored ⊢
    cases hall : accepted.getLast?.all (fun last =>
        decide (floorTo last.timestamp b.intervalMs ≤ floorTo tick.timestamp b.intervalMs)) with
    | false => exact h.counted (b.late + 1) b.invalid b.skewed
    | true =>
      rw [hall] at hstored hlate
      refine h.accept hpos hcapacity hstored (fun current hcurrent => ?_)
      rw [hcurrent] at hlate
      simpa using hlate

/-- A tick leaves the options. -/
theorem push_options (b : CandleBuilder) (tick : Tick) (receivedAtMs : ℚ) :
    (b.push tick receivedAtMs).digits = b.digits ∧ (b.push tick receivedAtMs).capacity = b.capacity := by
  unfold CandleBuilder.push
  split
  · exact ⟨rfl, rfl⟩
  · exact ⟨rfl, rfl⟩
  · split_ifs
    · exact ⟨rfl, rfl⟩
    · exact ⟨rfl, rfl⟩

end Fed

/-! ## Every sequence -/

theorem markedHoles_snoc (acts : List BuilderAct) (a : BuilderAct) :
    markedHoles (acts ++ [a]) = match a with
      | .push _ _ => markedHoles acts
      | .markHole fromMs toMs => if toMs < fromMs then markedHoles acts else markedHoles acts ++ [(fromMs, toMs)] := by
  unfold markedHoles
  rw [List.filterMap_append]
  cases a with
  | push tick receivedAtMs => simp
  | markHole fromMs toMs =>
    by_cases hlt : toMs < fromMs
    · simp [hlt]
    · simp [hlt]

/-- The options a builder was made with. -/
def CandleBuilder.Made (b : CandleBuilder) (intervalMs digits capacity : ℕ) : Prop :=
  b.intervalMs = intervalMs ∧ b.digits = digits ∧ b.capacity = capacity

/-- The builder after every sequence of ticks and holes. -/
theorem run_fedOk {intervalMs capacity : ℕ} (hpos : 0 < intervalMs) (hcapacity : 0 < capacity) (digits : ℕ)
    (acts : List BuilderAct) :
    (run CandleBuilder.fed { intervalMs, digits, capacity } acts).Made intervalMs digits capacity ∧
      FedOk (acceptedTicks intervalMs acts) (markedHoles acts)
        (run CandleBuilder.fed { intervalMs, digits, capacity } acts) := by
  induction acts using List.reverseRecOn with
  | nil => exact ⟨⟨rfl, rfl, rfl⟩, fedOk_start intervalMs digits capacity⟩
  | append_singleton acts a ih =>
    obtain ⟨⟨hms, hdigits, hcap⟩, hfed⟩ := ih
    rw [run_snoc]
    generalize run CandleBuilder.fed { intervalMs, digits, capacity } acts = b at hms hdigits hcap hfed
    have haccepted : acceptedTicks intervalMs (acts ++ [a]) =
        acceptInto intervalMs (acceptedTicks intervalMs acts) a := by
      simp [acceptedTicks, List.foldl_append]
    rw [haccepted, markedHoles_snoc]
    cases a with
    | push tick receivedAtMs =>
      obtain ⟨hsameDigits, hsameCapacity⟩ := push_options b tick receivedAtMs
      refine ⟨⟨(push_ms b tick receivedAtMs).trans hms, hsameDigits.trans hdigits, hsameCapacity.trans hcap⟩, ?_⟩
      have hpush := hfed.push (hms ▸ hpos) (hcap ▸ hcapacity) tick receivedAtMs
      rw [hms] at hpush
      exact hpush
    | markHole fromMs toMs =>
      unfold CandleBuilder.fed acceptInto
      by_cases hlt : toMs < fromMs
      · simp only [hlt, if_true]
        exact ⟨⟨hms, hdigits, hcap⟩, hfed⟩
      · simp only [hlt, if_false]
        exact ⟨⟨hms, hdigits, hcap⟩, hfed.markHole (hms ▸ hpos) fromMs toMs⟩

/-- **The candle invariant**: after every sequence of ticks and holes the candles are strictly ascending,
bucket-aligned and at most the capacity, each between its low and high, opening at the newest tick accepted
before its first, and none overlaps a hole ever marked. -/
theorem candle_invariant {intervalMs capacity : ℕ} (hpos : 0 < intervalMs) (hcapacity : 0 < capacity)
    (digits : ℕ) (acts : List BuilderAct) :
    let stored := (run CandleBuilder.fed { intervalMs, digits, capacity } acts).stored
    (stored.map Candle.timestamp).Pairwise (· < ·) ∧ stored.length ≤ capacity ∧
      ∀ c ∈ stored, (intervalMs : ℤ) ∣ c.timestamp ∧ Shaped c ∧
        OpensAt intervalMs digits (acceptedTicks intervalMs acts) c ∧
        ∀ hole ∈ markedHoles acts, CandleBuilder.overlaps intervalMs c hole.1 hole.2 = false := by
  obtain ⟨⟨hms, hdigits, hcap⟩, hfed⟩ := run_fedOk hpos hcapacity digits acts
  intro stored
  refine ⟨hfed.stored.ascending, hfed.length.trans hcap.le, fun c hc => ?_⟩
  have haligned := (hfed.stored.buckets c hc).1
  have hopens := hfed.opens c hc
  have hclean := hfed.clean c hc
  rw [hms] at haligned hopens hclean
  rw [hdigits] at hopens
  exact ⟨haligned, hfed.shaped c hc, hopens, hclean⟩

/-- Two ticks of one bucket out of order, a hole over the next bucket, and a tick behind it. -/
def heldActs : List BuilderAct :=
  [.push ⟨3, 1000, by decide⟩ 1000, .push ⟨2, 500, by decide⟩ 1000, .markHole 5000 6000,
    .push ⟨4, 7000, by decide⟩ 7000, .push ⟨5, 11000, by decide⟩ 11000]

/-- The candle of the hole's bucket is not kept, and the one after it opens at its tick. -/
theorem candle_invariant_held :
    let stored := (run CandleBuilder.fed { intervalMs := 5000, digits := 2, capacity := 2 } heldActs).stored
    stored = [⟨0, 3, 3, 2, 3⟩, ⟨10000, 4, 5, 4, 5⟩] ∧ (stored.map Candle.timestamp).Pairwise (· < ·) ∧
      Shaped ⟨10000, 4, 5, 4, 5⟩ ∧ OpensAt 5000 2 (acceptedTicks 5000 heldActs) ⟨10000, 4, 5, 4, 5⟩ ∧
      ∀ hole ∈ markedHoles heldActs, CandleBuilder.overlaps 5000 ⟨10000, 4, 5, 4, 5⟩ hole.1 hole.2 = false := by
  intro stored
  obtain ⟨hascending, -, hkept⟩ := candle_invariant (show 0 < 5000 by decide) (show 0 < 2 by decide) 2 heldActs
  have hstored : stored = [⟨0, 3, 3, 2, 3⟩, ⟨10000, 4, 5, 4, 5⟩] := by decide +kernel
  obtain ⟨-, hshaped, hopens, hclean⟩ := hkept ⟨10000, 4, 5, 4, 5⟩ (by
    show _ ∈ stored
    rw [hstored]
    exact List.mem_cons_of_mem _ (List.mem_singleton_self _))
  exact ⟨hstored, hascending, hshaped, hopens, hclean⟩

end Binarius
