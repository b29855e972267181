import Mathlib.Tactic
import Binarius.Lib.Runs
import Binarius.MarketData.CandleRing

/-!
# MarketData.CandleHoles — what a read of the candle ring serves of a drop

A drop period of a pair runs from its newest tick before the drop to its first newer tick after it, and
is open while none has come.  The ring marks an ended period on the pair's builders; an open one it does
not mark, and the watermark of the other pairs, or the clock, may close the bucket it begins in.

* `DropPeriods`: the periods of a pair's log.
* `RingInv`: what every writer keeps; `RingInv.act` is the step.
* `read_clean_iff`: **a read serves no candle of a drop exactly when it is safe**, in every state reached.
* `ring_holes`: **so over every run.**
-/

namespace Binarius

open Lib

/-! ## Drop periods -/

/-- What happened to a pair: a tick the ring took, or a drop of the socket. -/
inductive RingEntry
  | tick (timestamp : ℚ)
  | dropped
  deriving DecidableEq, Repr

/-- The drop periods so far. -/
structure DropPeriods where
  newest : Option ℚ := none
  /-- the start of the period that is still open -/
  openMark : Option ℚ := none
  ended : List (ℚ × ℚ) := []
  deriving DecidableEq, Repr

namespace DropPeriods

def add (d : DropPeriods) : RingEntry → DropPeriods
  | .dropped => { d with openMark := match d.openMark with | some mark => some mark | none => d.newest }
  | .tick timestamp =>
    let newest := some (d.newest.elim timestamp (max · timestamp))
    match d.openMark with
    | none => { d with newest }
    | some mark =>
      if mark < timestamp then { newest, openMark := none, ended := d.ended ++ [(mark, timestamp)] }
      else { d with newest }

/-- The periods of a pair's log. -/
def of (l : List RingEntry) : DropPeriods := l.foldl add {}

theorem of_snoc (l : List RingEntry) (e : RingEntry) : of (l ++ [e]) = (of l).add e := by
  unfold of
  rw [List.foldl_append]
  rfl

/-- The candle overlaps a period: an ended one, or the open one, which has no end. -/
def reaches (d : DropPeriods) (intervalMs : ℕ) (candle : Candle) : Bool :=
  d.ended.any (fun period => CandleBuilder.overlaps intervalMs candle period.1 period.2) ||
    d.openMark.any (fun mark => decide (mark < (candle.timestamp : ℚ) + intervalMs))

end DropPeriods

/-! ## What every writer keeps of a pair -/

/-- A pair of the ring after its log. -/
structure RingPairInv (intervals : List ScanInterval) (d : DropPeriods) (pair : RingPair) : Prop where
  builders : ∀ e ∈ pair.builders.entries, e.2.intervalMs = e.1.ms ∧ HoleInv d.newest d.ended e.2
  heard : pair.builders.entries ≠ [] → ∃ newest, d.newest = some newest ∧
    (pair.holePending = true → pair.dropWatermark = some newest) ∧
    d.openMark = if pair.holePending then pair.dropWatermark else none
  silent : pair.builders.entries = [] → intervals ≠ [] →
    d.newest = none ∧ d.openMark = none ∧ d.ended = [] ∧ pair.dropWatermark = none

section Pair

variable {o : CandleRingOptions} {d : DropPeriods} {pair : RingPair}

theorem mapVal_entries_eq_nil {κ ν : Type} {m : OrderedMap κ ν} {f : κ → ν → ν} :
    (m.mapVal f).entries = [] ↔ m.entries = [] := List.map_eq_nil_iff

/-- A drop. -/
theorem RingPairInv.dropped (h : RingPairInv o.intervals d pair) :
    RingPairInv o.intervals (d.add .dropped) (CandleRing.dropPair pair) := by
  have hfirst : ∀ e rest, pair.builders.entries = e :: rest → CandleRing.pairWatermark pair = d.newest := by
    intro e rest heq
    have hmem : e ∈ pair.builders.entries := by
      rw [heq]
      exact List.mem_cons_self
    unfold CandleRing.pairWatermark
    rw [heq]
    exact (h.builders e hmem).2.watermark
  unfold CandleRing.dropPair
  by_cases hpending : pair.holePending = true
  · rw [if_pos hpending]
    refine ⟨h.builders, ?_, ?_⟩
    · intro hne
      obtain ⟨newest, hnewest, hmark, hopen⟩ := h.heard hne
      refine ⟨newest, hnewest, hmark, ?_⟩
      rw [if_pos hpending] at hopen ⊢
      show (match d.openMark with | some mark => some mark | none => d.newest) = _
      rw [hopen, hmark hpending]
    · intro hnil hne
      obtain ⟨hnewest, hopen, hended, hmark⟩ := h.silent hnil hne
      refine ⟨hnewest, ?_, hended, hmark⟩
      show (match d.openMark with | some mark => some mark | none => d.newest) = _
      rw [hopen, hnewest]
  · rw [if_neg hpending]
    refine ⟨h.builders, ?_, ?_⟩
    · intro hne
      obtain ⟨newest, hnewest, -, hopen⟩ := h.heard hne
      obtain ⟨e, rest, hcons⟩ := List.exists_cons_of_ne_nil hne
      have hwatermark := hfirst e rest hcons
      refine ⟨newest, hnewest, fun _ => hwatermark.trans hnewest, ?_⟩
      rw [if_neg hpending] at hopen
      show (match d.openMark with | some mark => some mark | none => d.newest) = _
      rw [hopen, if_pos rfl]
      exact hwatermark.symm
    · intro hnil hne
      obtain ⟨hnewest, hopen, hended, -⟩ := h.silent hnil hne
      refine ⟨hnewest, ?_, hended, ?_⟩
      · show (match d.openMark with | some mark => some mark | none => d.newest) = _
        rw [hopen, hnewest]
      · show CandleRing.pairWatermark pair = none
        unfold CandleRing.pairWatermark
        rw [hnil]
        rfl

/-- The builders of a first tick. -/
theorem foldl_builders (intervals : List ScanInterval) (digits capacity : ℕ)
    (m : OrderedMap ScanInterval CandleBuilder)
    (hm : ∀ e ∈ m.entries, e.2 = { intervalMs := e.1.ms, digits, capacity }) :
    (∀ e ∈ (intervals.foldl (fun builders interval =>
        builders.set interval ({ intervalMs := interval.ms, digits, capacity } : CandleBuilder)) m).entries,
      e.2 = { intervalMs := e.1.ms, digits, capacity }) ∧
    ((intervals.foldl (fun builders interval =>
        builders.set interval ({ intervalMs := interval.ms, digits, capacity } : CandleBuilder)) m).entries = [] →
      intervals = []) := by
  induction intervals generalizing m with
  | nil => exact ⟨hm, fun _ => rfl⟩
  | cons interval rest ih =>
    rw [List.foldl_cons]
    have hset : ∀ e ∈ (m.set interval ({ intervalMs := interval.ms, digits, capacity } : CandleBuilder)).entries,
        e.2 = { intervalMs := e.1.ms, digits, capacity } := by
      intro e he
      have hget := OrderedMap.get?_eq_some.mpr (show (e.1, e.2) ∈ _ from he)
      rw [OrderedMap.get?_set] at hget
      split_ifs at hget with hk
      · rw [← hk]
        exact (Option.some.inj hget).symm
      · exact hm _ (OrderedMap.get?_eq_some.mp hget)
    obtain ⟨hall, hnil⟩ := ih _ hset
    refine ⟨hall, fun hempty => ?_⟩
    -- a key that is written stays written
    exfalso
    have hkeep : ∀ (l : List ScanInterval) (m' : OrderedMap ScanInterval CandleBuilder),
        m'.entries ≠ [] → (l.foldl (fun builders i =>
          builders.set i ({ intervalMs := i.ms, digits, capacity } : CandleBuilder)) m').entries ≠ [] := by
      intro l
      induction l with
      | nil => exact fun _ hne => hne
      | cons i l ihl =>
        intro m' _
        refine ihl _ ?_
        intro hnil'
        have hget := OrderedMap.get?_set m' i ({ intervalMs := i.ms, digits, capacity } : CandleBuilder) i
        rw [if_pos rfl] at hget
        have hmem := OrderedMap.get?_eq_some.mp hget
        rw [hnil'] at hmem
        exact absurd hmem List.not_mem_nil
    refine hkeep rest _ ?_ hempty
    intro hnil'
    have hget := OrderedMap.get?_set m interval ({ intervalMs := interval.ms, digits, capacity } : CandleBuilder)
      interval
    rw [if_pos rfl] at hget
    have hmem := OrderedMap.get?_eq_some.mp hget
    rw [hnil'] at hmem
    exact absurd hmem List.not_mem_nil

/-- What a tick reads of its pair: builders for every interval, each as the log says. -/
structure TickReady (d : DropPeriods) (pair : RingPair) : Prop where
  builders : ∀ e ∈ pair.builders.entries, e.2.intervalMs = e.1.ms ∧ HoleInv d.newest d.ended e.2
  heard : pair.builders.entries ≠ [] →
    (∃ newest, d.newest = some newest ∧ (pair.holePending = true → pair.dropWatermark = some newest) ∧
      d.openMark = if pair.holePending then pair.dropWatermark else none) ∨
    (d.newest = none ∧ d.openMark = none ∧ pair.dropWatermark = none)

theorem RingPairInv.ready (h : RingPairInv o.intervals d pair) (digits : ℕ) :
    TickReady d (CandleRing.withBuilders o pair digits) ∧
      ((CandleRing.withBuilders o pair digits).builders.entries = [] → o.intervals = []) := by
  unfold CandleRing.withBuilders
  by_cases hnil : pair.builders.entries = []
  · rw [if_pos hnil]
    obtain ⟨hall, hempty⟩ := foldl_builders o.intervals digits o.capacity OrderedMap.empty (fun _ he => nomatch he)
    refine ⟨⟨?_, ?_⟩, hempty⟩
    · intro e he
      have hintervals : o.intervals ≠ [] := by
        intro hno
        simp only [hno, List.foldl_nil] at he
        exact nomatch he
      obtain ⟨hnewest, -, hended, -⟩ := h.silent hnil hintervals
      rw [hall e he, hnewest, hended]
      exact ⟨rfl, HoleInv.start e.1.pos⟩
    · intro hne
      have hintervals : o.intervals ≠ [] := by
        intro hno
        simp only [hno, List.foldl_nil] at hne
        exact hne rfl
      obtain ⟨hnewest, hopen, -, hmark⟩ := h.silent hnil hintervals
      exact .inr ⟨hnewest, hopen, hmark⟩
  · rw [if_neg hnil]
    exact ⟨⟨h.builders, fun hne => .inl (h.heard hne)⟩, fun hno => absurd hno hnil⟩

/-- A builder's interval is its own. -/
theorem push_intervalMs (b : CandleBuilder) {tick : Tick} {receivedAtMs : ℚ}
    (hproblem : tickProblem tick receivedAtMs = none) :
    (b.push tick receivedAtMs).intervalMs = b.intervalMs := by
  unfold CandleBuilder.push
  rw [hproblem]
  simp only
  split_ifs <;> rfl

/-- **A tick**: the hole it ends, then every builder. -/
theorem TickReady.tick (h : TickReady d pair)
    (hempty : pair.builders.entries = [] → o.intervals = []) {tick : Tick} {receivedAtMs : ℚ}
    (hproblem : tickProblem tick receivedAtMs = none) :
    RingPairInv o.intervals (d.add (.tick tick.timestamp))
      { CandleRing.markHoles pair tick.timestamp with
        builders := (CandleRing.markHoles pair tick.timestamp).builders.mapVal (fun _ builder =>
          builder.push tick receivedAtMs) } := by
  have hmax : ∀ {newest : ℚ}, d.newest = some newest →
      d.newest.elim tick.timestamp (max · tick.timestamp) = max newest tick.timestamp := by
    intro newest hnewest
    rw [hnewest]
    rfl
  by_cases hends : CandleRing.endsHole pair tick.timestamp = true
  · have hmarked : CandleRing.markHoles pair tick.timestamp = { pair with
        builders := pair.builders.mapVal (fun _ builder =>
          builder.markHole (pair.dropWatermark.getD tick.timestamp) tick.timestamp)
        holePending := false
        dropWatermark := none } := by
      unfold CandleRing.markHoles
      rw [if_pos hends]
    rw [hmarked]
    unfold CandleRing.endsHole at hends
    rw [Bool.and_eq_true] at hends
    obtain ⟨hpending, hpast⟩ := hends
    refine ⟨?_, ?_, ?_⟩
    · intro e he
      obtain ⟨e', he', rfl⟩ := List.mem_map.mp he
      obtain ⟨e₀, he₀, rfl⟩ := List.mem_map.mp he'
      obtain ⟨hms, hinv⟩ := h.builders e₀ he₀
      refine ⟨(push_intervalMs _ hproblem).trans hms, ?_⟩
      rcases h.heard (List.ne_nil_of_mem he₀) with ⟨newest, hnewest, hmark, hopen⟩ | ⟨hnewest, hopen, hmark⟩
      · rw [if_pos hpending, hmark hpending] at hopen
        rw [hmark hpending] at hpast ⊢
        have hlt : newest < tick.timestamp := by simpa using hpast
        rw [hnewest] at hinv
        have hadd : d.add (.tick tick.timestamp) = {
            newest := some (max newest tick.timestamp), openMark := none,
            ended := d.ended ++ [(newest, tick.timestamp)] } := by
          unfold DropPeriods.add
          simp only [hopen, if_pos hlt, hnewest, Option.elim]
        rw [hadd]
        exact hinv.markHole hproblem hlt
      · rw [hnewest] at hinv
        rw [hmark]
        have hadd : d.add (.tick tick.timestamp) = { d with newest := some tick.timestamp } := by
          unfold DropPeriods.add
          simp only [hopen, hnewest, Option.elim]
        rw [hadd]
        exact (hinv.markFirst _ _).push hproblem
    · intro hne
      have hne' : pair.builders.entries ≠ [] :=
        fun hno => hne (mapVal_entries_eq_nil.mpr (mapVal_entries_eq_nil.mpr hno))
      rcases h.heard hne' with ⟨newest, hnewest, hmark, hopen⟩ | ⟨hnewest, hopen, hmark⟩
      · rw [if_pos hpending, hmark hpending] at hopen
        rw [hmark hpending] at hpast
        have hlt : newest < tick.timestamp := by simpa using hpast
        refine ⟨max newest tick.timestamp, ?_, fun hno => (by simp at hno), ?_⟩ <;>
        · unfold DropPeriods.add
          simp [hopen, hlt, hnewest]
      · refine ⟨tick.timestamp, ?_, fun hno => (by simp at hno), ?_⟩ <;>
        · unfold DropPeriods.add
          simp [hopen, hnewest]
    · intro hnil hne
      have hnil' : ((pair.builders.mapVal (fun _ builder =>
          builder.markHole (pair.dropWatermark.getD tick.timestamp) tick.timestamp)).mapVal (fun _ builder =>
          builder.push tick receivedAtMs)).entries = [] := hnil
      exact absurd (hempty (mapVal_entries_eq_nil.mp (mapVal_entries_eq_nil.mp hnil'))) hne
  · have hmarked : CandleRing.markHoles pair tick.timestamp = pair := by
      unfold CandleRing.markHoles
      rw [if_neg hends]
    rw [hmarked]
    -- the tick is not past an open mark
    have hadd : pair.builders.entries ≠ [] → d.add (.tick tick.timestamp) =
        { d with newest := some (d.newest.elim tick.timestamp (max · tick.timestamp)) } := by
      intro hne
      unfold DropPeriods.add
      rcases h.heard hne with ⟨newest, hnewest, hmark, hopen⟩ | ⟨hnewest, hopen, hmark⟩
      · by_cases hpending : pair.holePending = true
        · rw [if_pos hpending, hmark hpending] at hopen
          have hnot : ¬ newest < tick.timestamp := by
            intro hlt
            refine hends ?_
            unfold CandleRing.endsHole
            rw [hpending, hmark hpending]
            simpa using hlt
          simp only [hopen, if_neg hnot]
        · rw [if_neg hpending] at hopen
          simp only [hopen]
      · simp only [hopen]
    refine ⟨?_, ?_, ?_⟩
    · intro e he
      obtain ⟨e₀, he₀, rfl⟩ := List.mem_map.mp he
      obtain ⟨hms, hinv⟩ := h.builders e₀ he₀
      rw [hadd (List.ne_nil_of_mem he₀)]
      exact ⟨(push_intervalMs _ hproblem).trans hms, hinv.push hproblem⟩
    · intro hne
      have hne' : pair.builders.entries ≠ [] := fun hno => hne (mapVal_entries_eq_nil.mpr hno)
      rw [hadd hne']
      rcases h.heard hne' with ⟨newest, hnewest, hmark, hopen⟩ | ⟨hnewest, hopen, hmark⟩
      · refine ⟨max newest tick.timestamp, congrArg some (hmax hnewest), ?_, hopen⟩
        intro hpending
        have hnot : ¬ newest < tick.timestamp := by
          intro hlt
          refine hends ?_
          unfold CandleRing.endsHole
          rw [show pair.holePending = true from hpending, hmark hpending]
          simpa using hlt
        rw [max_eq_left (not_lt.mp hnot)]
        exact hmark hpending
      · -- a first tick leaves no hole pending
        have hnot : pair.holePending = false := by
          cases hp : pair.holePending with
          | false => rfl
          | true =>
            refine absurd ?_ hends
            unfold CandleRing.endsHole
            rw [hp, hmark]
            rfl
        refine ⟨tick.timestamp, by rw [hnewest]; rfl, fun hp => ?_, ?_⟩
        · exact nomatch hnot.symm.trans hp
        · rw [hopen, if_neg (by simp [hnot])]
    · intro hnil hne
      have hnil' : (pair.builders.mapVal (fun _ builder => builder.push tick receivedAtMs)).entries = [] := hnil
      exact absurd (hempty (mapVal_entries_eq_nil.mp hnil')) hne

end Pair

/-! ## Runs of the ring -/

inductive RingAct
  | push (assetId : ℕ) (digits : ℤ) (tick : Tick) (receivedAtMs : ℚ)
  | drop
  | fill (assetId : ℕ) (interval : ScanInterval) (rows : List Candle) (nowMs : ℚ)
  | read (assetId : ℕ) (interval : ScanInterval) (nowMs : ℚ)

/-- What a run shows: a tick the ring took for a pair, or a drop. -/
inductive RingLogEntry
  | tick (assetId : ℕ) (timestamp : ℚ)
  | dropped
  deriving DecidableEq, Repr

def RingLogEntry.ofPair (a : ℕ) : RingLogEntry → Option RingEntry
  | tick assetId timestamp => if assetId = a then some (.tick timestamp) else none
  | dropped => some .dropped

/-- The ring and its log. -/
structure WatchedRing where
  ring : CandleRing := {}
  log : List RingLogEntry := []

namespace WatchedRing

variable (o : CandleRingOptions)

/-- The drop periods of a pair. -/
def periods (w : WatchedRing) (a : ℕ) : DropPeriods := DropPeriods.of (w.log.filterMap (RingLogEntry.ofPair a))

/-- A tick that no check of `push` refuses. -/
def takes (r : CandleRing) (assetId : ℕ) (digits : ℤ) (tick : Tick) (receivedAtMs : ℚ) : Bool :=
  decide (tickProblem tick receivedAtMs = none) && decide (tick.timestamp ≤ receivedAtMs + o.skewMarginMs) &&
    ((assertDigits digits).isSome ||
      !(decide ((r.pairOf assetId).builders.entries.length = 0) && decide (o.intervals ≠ [])))

def act (w : WatchedRing) : RingAct → WatchedRing
  | .push assetId digits tick receivedAtMs => {
      ring := w.ring.push o assetId digits tick receivedAtMs
      log := if takes o w.ring assetId digits tick receivedAtMs then w.log ++ [.tick assetId tick.timestamp]
        else w.log }
  | .drop => { ring := w.ring.onDrop, log := w.log ++ [.dropped] }
  | .fill assetId interval rows nowMs => { w with ring := w.ring.fill o assetId interval rows nowMs }
  | .read _ _ _ => w

/-- **What every run keeps**: of each pair it knows, `RingPairInv`; of any other pair, no tick. -/
def Inv (w : WatchedRing) : Prop :=
  ∀ a, match w.ring.pairs.get? a with
    | some pair => RingPairInv o.intervals (w.periods a) pair
    | none => (w.periods a).newest = none ∧ (w.periods a).openMark = none ∧ (w.periods a).ended = []

variable {o} {w : WatchedRing}

/-- A pair the ring opens: nothing is known of it. -/
theorem Inv.pairOf (h : w.Inv o) (a : ℕ) : RingPairInv o.intervals (w.periods a) (w.ring.pairOf a) := by
  have ha := h a
  unfold CandleRing.pairOf
  cases hget : w.ring.pairs.get? a with
  | some pair =>
    rw [hget] at ha
    exact ha
  | none =>
    rw [hget] at ha
    exact ⟨fun e he => (nomatch he), fun hne => absurd rfl hne, fun _ _ => ⟨ha.1, ha.2.1, ha.2.2, rfl⟩⟩

/-- One pair written; the log says nothing new of the others. -/
theorem Inv.setPair (h : w.Inv o) {assetId : ℕ} {pair : RingPair} {ring : CandleRing}
    {log : List RingLogEntry} (hpairs : ring.pairs = w.ring.pairs.set assetId pair)
    (hother : ∀ a, a ≠ assetId → log.filterMap (RingLogEntry.ofPair a) =
      w.log.filterMap (RingLogEntry.ofPair a))
    (hpair : RingPairInv o.intervals (WatchedRing.periods ⟨ring, log⟩ assetId) pair) :
    WatchedRing.Inv o ⟨ring, log⟩ := by
  intro a
  show match ring.pairs.get? a with | some pair => _ | none => _
  rw [hpairs, OrderedMap.get?_set]
  by_cases ha : assetId = a
  · subst ha
    rw [if_pos rfl]
    exact hpair
  · have hold := h a
    have hsame : WatchedRing.periods ⟨ring, log⟩ a = w.periods a := by
      unfold periods
      rw [hother a (fun heq => ha heq.symm)]
    rw [if_neg ha, hsame]
    exact hold

/-- A tick the ring takes. -/
theorem push_of_takes {assetId : ℕ} {digits : ℤ} {tick : Tick} {receivedAtMs : ℚ} (h : w.Inv o)
    (htakes : takes o w.ring assetId digits tick receivedAtMs = true) :
    tickProblem tick receivedAtMs = none ∧ ∃ pair, TickReady (w.periods assetId) pair ∧
      (pair.builders.entries = [] → o.intervals = []) ∧
      w.ring.push o assetId digits tick receivedAtMs =
        w.ring.acceptTick o assetId pair tick receivedAtMs := by
  unfold takes at htakes
  rw [Bool.and_eq_true, Bool.and_eq_true, decide_eq_true_eq, decide_eq_true_eq] at htakes
  obtain ⟨⟨hproblem, hahead⟩, hdigits⟩ := htakes
  have hpair := h.pairOf assetId
  refine ⟨hproblem, ?_⟩
  unfold CandleRing.push
  simp only [hproblem, if_neg (not_lt.mpr hahead)]
  cases hassert : assertDigits digits with
  | some digits' =>
    obtain ⟨hready, hempty⟩ := hpair.ready digits'
    exact ⟨_, hready, hempty, rfl⟩
  | none =>
    rw [hassert, Option.isSome_none, Bool.false_or, Bool.not_eq_true', Bool.and_eq_false_iff,
      decide_eq_false_iff_not, decide_eq_false_iff_not, not_not] at hdigits
    refine ⟨w.ring.pairOf assetId, ⟨hpair.builders, fun hne => .inl (hpair.heard hne)⟩, ?_, ?_⟩
    · intro hnil
      rcases hdigits with hlength | hnone
      · exact absurd (by rw [hnil]; rfl) hlength
      · exact hnone
    · simp only
      rw [if_neg]
      rintro ⟨hnil, hne⟩
      rcases hdigits with hlength | hnone
      · exact hlength (by rw [hnil]; rfl)
      · exact hne hnone

/-- A tick the ring does not take leaves the pairs, or opens one without a builder. -/
theorem push_of_not_takes {assetId : ℕ} {digits : ℤ} {tick : Tick} {receivedAtMs : ℚ}
    (htakes : takes o w.ring assetId digits tick receivedAtMs = false) :
    (w.ring.push o assetId digits tick receivedAtMs).pairs = w.ring.pairs ∨
      (w.ring.push o assetId digits tick receivedAtMs).pairs =
        w.ring.pairs.set assetId (w.ring.pairOf assetId) := by
  unfold CandleRing.push
  split
  · exact .inl rfl
  · exact .inl rfl
  · rename_i hproblem
    split_ifs with hahead
    · exact .inl rfl
    · unfold takes at htakes
      rw [decide_eq_true hproblem, decide_eq_true (not_lt.mp hahead), Bool.true_and, Bool.true_and] at htakes
      cases hassert : assertDigits digits with
      | some digits' =>
        rw [hassert] at htakes
        exact nomatch htakes
      | none =>
        rw [hassert, Option.isSome_none, Bool.false_or, Bool.not_eq_false', Bool.and_eq_true,
          decide_eq_true_eq, decide_eq_true_eq] at htakes
        refine .inr ?_
        simp only
        rw [if_pos ⟨List.length_eq_zero_iff.mp htakes.1, htakes.2⟩]

/-- **Every writer keeps the invariant.** -/
theorem Inv.act (h : w.Inv o) (x : RingAct) : (w.act o x).Inv o := by
  cases x with
  | read assetId interval nowMs => exact h
  | fill assetId interval rows nowMs =>
    have hpair := h.pairOf assetId
    exact h.setPair rfl (fun _ _ => rfl) ⟨hpair.builders, hpair.heard, hpair.silent⟩
  | drop =>
    intro a
    have hold := h a
    have hperiods : WatchedRing.periods (w.act o .drop) a = (w.periods a).add .dropped := by
      unfold periods
      show DropPeriods.of ((w.log ++ [RingLogEntry.dropped]).filterMap _) = _
      rw [List.filterMap_append]
      exact DropPeriods.of_snoc _ _
    show match (w.ring.onDrop.pairs.get? a) with | some pair => _ | none => _
    rw [hperiods]
    unfold CandleRing.onDrop
    simp only
    rw [OrderedMap.get?_mapVal]
    cases hget : w.ring.pairs.get? a with
    | some pair =>
      rw [hget] at hold
      exact hold.dropped
    | none =>
      rw [hget] at hold
      refine ⟨hold.1, ?_, hold.2.2⟩
      show (match (w.periods a).openMark with | some mark => some mark | none => (w.periods a).newest) = _
      rw [hold.2.1, hold.1]
  | push assetId digits tick receivedAtMs =>
    cases htakes : takes o w.ring assetId digits tick receivedAtMs with
    | false =>
      have hact : w.act o (.push assetId digits tick receivedAtMs) =
          ⟨w.ring.push o assetId digits tick receivedAtMs, w.log⟩ := by
        unfold WatchedRing.act
        simp [htakes]
      rw [hact]
      rcases push_of_not_takes htakes with hpairs | hpairs
      · intro a
        have hold := h a
        show match (w.ring.push o assetId digits tick receivedAtMs).pairs.get? a with
          | some pair => _ | none => _
        rw [hpairs]
        exact hold
      · exact h.setPair hpairs (fun _ _ => rfl) (h.pairOf assetId)
    | true =>
      obtain ⟨hproblem, pair, hready, hempty, hpush⟩ := push_of_takes h htakes
      have hact : w.act o (.push assetId digits tick receivedAtMs) =
          ⟨w.ring.acceptTick o assetId pair tick receivedAtMs, w.log ++ [.tick assetId tick.timestamp]⟩ := by
        unfold WatchedRing.act
        simp [htakes, hpush]
      rw [hact]
      refine h.setPair rfl (fun a ha => ?_) ?_
      · rw [List.filterMap_append]
        simp [RingLogEntry.ofPair, show ¬ assetId = a from fun heq => ha heq.symm]
      · have hperiods : WatchedRing.periods ⟨w.ring.acceptTick o assetId pair tick receivedAtMs,
            w.log ++ [.tick assetId tick.timestamp]⟩ assetId =
            (w.periods assetId).add (.tick tick.timestamp) := by
          unfold periods
          rw [List.filterMap_append]
          have hone : [RingLogEntry.tick assetId tick.timestamp].filterMap (RingLogEntry.ofPair assetId) =
              [.tick tick.timestamp] := by simp [RingLogEntry.ofPair]
          rw [hone]
          exact DropPeriods.of_snoc _ _
        rw [hperiods]
        exact hready.tick hempty hproblem

theorem Inv.start : WatchedRing.Inv o {} := by
  intro a
  show _ ∧ _ ∧ _
  exact ⟨rfl, rfl, rfl⟩

/-! ### Reads -/

/-- **A read serves no candle of a drop**: none of its closed tick-built candles overlaps a drop period of
its pair. -/
def clean (o : CandleRingOptions) (w : WatchedRing) : RingAct → Prop
  | .read assetId interval nowMs => ∀ candle ∈ w.ring.closedBuilt o assetId interval nowMs,
      (w.periods assetId).reaches interval.ms candle = false
  | _ => True

/-- So each candle that a read serves is a filled row, or overlaps no drop period. -/
theorem clean.candles {w : WatchedRing} {assetId : ℕ} {interval : ScanInterval} {nowMs : ℚ}
    (h : clean o w (.read assetId interval nowMs)) :
    ∀ candle ∈ (w.ring.read o assetId interval nowMs).candles,
      candle ∈ w.ring.closedFilled o assetId interval nowMs ∨
        (w.periods assetId).reaches interval.ms candle = false := by
  intro candle hcandle
  rcases (CandleRing.mem_read o).mp hcandle with hfilled | hbuilt
  · exact .inl hfilled
  · exact .inr (h candle hbuilt)

/-- A read is safe when its pair's hole is not pending, or the bucket of the pair's watermark at the drop
is not closed yet, is out of the window, or holds no candle. -/
def safe (o : CandleRingOptions) (w : WatchedRing) : RingAct → Prop
  | .read assetId interval nowMs => ∀ pair mark, w.ring.pairs.get? assetId = some pair →
      pair.holePending = true → pair.dropWatermark = some mark →
      (∀ candle ∈ w.ring.built assetId interval, candle.timestamp ≠ floorTo mark interval.ms) ∨
      CandleRing.inWindow o interval nowMs (floorTo mark interval.ms) = false ∨
      w.ring.isClosed o interval nowMs (floorTo mark interval.ms) = false
  | _ => True

/-- The builder of a read's pair. -/
theorem Inv.built (h : w.Inv o) {assetId : ℕ} {interval : ScanInterval} {candle : Candle}
    (hmem : candle ∈ w.ring.built assetId interval) : ∃ pair builder,
      w.ring.pairs.get? assetId = some pair ∧ pair.builders.entries ≠ [] ∧
      RingPairInv o.intervals (w.periods assetId) pair ∧ builder.intervalMs = interval.ms ∧
      HoleInv (w.periods assetId).newest (w.periods assetId).ended builder ∧ candle ∈ builder.stored := by
  unfold CandleRing.built at hmem
  cases hget : w.ring.pairs.get? assetId with
  | none =>
    rw [hget] at hmem
    exact nomatch hmem
  | some pair =>
    have hpair := h assetId
    rw [hget] at hpair hmem
    cases hbuilder : pair.builders.get? interval with
    | none =>
      rw [Option.bind_some, hbuilder] at hmem
      exact nomatch hmem
    | some builder =>
      rw [Option.bind_some, hbuilder] at hmem
      have hentry := OrderedMap.get?_eq_some.mp hbuilder
      obtain ⟨hms, hinv⟩ := hpair.builders _ hentry
      exact ⟨pair, builder, rfl, List.ne_nil_of_mem hentry, hpair, hms, hinv, hmem⟩

/-- **Which candles of a pair a drop reaches**: the one of the open mark's bucket, and no other. -/
theorem Inv.reaches_iff (h : w.Inv o) {assetId : ℕ} {interval : ScanInterval} {candle : Candle}
    (hmem : candle ∈ w.ring.built assetId interval) :
    (w.periods assetId).reaches interval.ms candle = true ↔
      ∃ pair mark, w.ring.pairs.get? assetId = some pair ∧ pair.holePending = true ∧
        pair.dropWatermark = some mark ∧ candle.timestamp = floorTo mark interval.ms := by
  obtain ⟨pair, builder, hget, hne, hpair, hms, hinv, hstored⟩ := h.built hmem
  obtain ⟨newest, hnewest, hmark, hopen⟩ := hpair.heard hne
  obtain ⟨hdvd, n, hn, hle⟩ := hinv.buckets candle hstored
  obtain rfl := Option.some.inj (hnewest.symm.trans hn)
  rw [hms] at hdvd hle
  have hended : (w.periods assetId).ended.any (fun period =>
      CandleBuilder.overlaps interval.ms candle period.1 period.2) = false := by
    rw [List.any_eq_false]
    intro period hperiod
    have hclean := hinv.clean candle hstored period hperiod
    rw [hms] at hclean
    simp [hclean]
  unfold DropPeriods.reaches
  rw [hended, Bool.false_or, hopen]
  by_cases hpending : pair.holePending = true
  · rw [if_pos hpending, hmark hpending]
    constructor
    · intro hreach
      have hlt : newest < (candle.timestamp : ℚ) + interval.ms := by simpa using hreach
      refine ⟨pair, newest, hget, hpending, hmark hpending, le_antisymm hle ?_⟩
      -- the bucket's end is past the mark, so the bucket is not before the mark's own
      obtain ⟨k, hk⟩ := hdvd
      obtain ⟨m, hm⟩ := @dvd_floorTo interval.ms newest
      have hfloor := floorTo_le interval.pos newest
      have hlt' : (floorTo newest interval.ms : ℚ) < ((candle.timestamp + interval.ms : ℤ) : ℚ) := by
        push_cast
        exact hfloor.trans_lt hlt
      have hint : floorTo newest interval.ms < candle.timestamp + interval.ms := by exact_mod_cast hlt'
      have hpos : (0 : ℤ) < interval.ms := by exact_mod_cast interval.pos
      rw [hk, hm] at hint ⊢
      have hmk : m < k + 1 := by
        by_contra hnot
        have hmul : (interval.ms : ℤ) * (k + 1) ≤ interval.ms * m :=
          mul_le_mul_of_nonneg_left (not_lt.mp hnot) hpos.le
        rw [mul_add, mul_one] at hmul
        omega
      exact mul_le_mul_of_nonneg_left (by omega) hpos.le
    · rintro ⟨pair', mark, hget', hpending', hmark', hbucket⟩
      obtain rfl := Option.some.inj (hget.symm.trans hget')
      obtain rfl := Option.some.inj ((hmark hpending).symm.trans hmark')
      have hlt := lt_floorTo_add interval.pos newest
      rw [Option.any_some, decide_eq_true_eq, hbucket]
      exact hlt
  · rw [if_neg hpending]
    constructor
    · intro hreach
      exact nomatch hreach
    · rintro ⟨pair', mark, hget', hpending', -⟩
      obtain rfl := Option.some.inj (hget.symm.trans hget')
      exact absurd hpending' hpending

/-- **A read serves no candle of a drop exactly when it is safe.** -/
theorem Inv.read_clean_iff (h : w.Inv o) (x : RingAct) : w.clean o x ↔ w.safe o x := by
  cases x with
  | push assetId digits tick receivedAtMs => exact Iff.rfl
  | drop => exact Iff.rfl
  | fill assetId interval rows nowMs => exact Iff.rfl
  | read assetId interval nowMs =>
    constructor
    · intro hclean pair mark hget hpending hmark
      by_contra hnot
      rw [not_or, not_or, Bool.not_eq_false, Bool.not_eq_false] at hnot
      obtain ⟨hstored, hwindow, hclosed⟩ := hnot
      push Not at hstored
      obtain ⟨candle, hcandle, hbucket⟩ := hstored
      have hserved : candle ∈ w.ring.closedBuilt o assetId interval nowMs := by
        refine List.mem_filter.mpr ⟨hcandle, ?_⟩
        rw [hbucket, hwindow, hclosed]
        rfl
      have hreaches := (h.reaches_iff hcandle).mpr ⟨pair, mark, hget, hpending, hmark, hbucket⟩
      exact nomatch (hclean candle hserved).symm.trans hreaches
    · intro hsafe candle hcandle
      obtain ⟨hbuilt, hserved⟩ := List.mem_filter.mp hcandle
      rw [Bool.and_eq_true] at hserved
      cases hreaches : (w.periods assetId).reaches interval.ms candle with
      | false => rfl
      | true =>
        obtain ⟨pair, mark, hget, hpending, hmark, hbucket⟩ := (h.reaches_iff hbuilt).mp hreaches
        rcases hsafe pair mark hget hpending hmark with hnone | hwindow | hclosed
        · exact absurd hbucket (hnone candle hbuilt)
        · rw [← hbucket] at hwindow
          exact nomatch hwindow.symm.trans hserved.1
        · rw [← hbucket] at hclosed
          exact nomatch hclosed.symm.trans hserved.2

end WatchedRing

section Runs

variable (o : CandleRingOptions)

/-- **No candle with a hole is served exactly when every read is safe**: over every run of ticks, drops,
fills and reads of the ring. -/
theorem ring_holes (acts : List RingAct) :
    RunOk (WatchedRing.act o) (WatchedRing.clean o) {} acts ↔
      RunOk (WatchedRing.act o) (WatchedRing.safe o) {} acts := by
  have hall : ∀ (acts : List RingAct) (w : WatchedRing), w.Inv o →
      (RunOk (WatchedRing.act o) (WatchedRing.clean o) w acts ↔
        RunOk (WatchedRing.act o) (WatchedRing.safe o) w acts) := by
    intro acts
    induction acts with
    | nil => exact fun _ _ => Iff.rfl
    | cons x acts ih =>
      intro w hw
      exact and_congr (hw.read_clean_iff x) (ih _ (hw.act x))
  exact hall acts {} WatchedRing.Inv.start

end Runs

/-- Pair 1 ticks at 1 s and drops; pair 2 ticks at 6 s, which closes pair 1's bucket of 5 s; then pair 1
is read, before its own first tick. -/
def readBeforeFirstTick : List RingAct := [
  .push 1 2 ⟨5, 1000, by norm_num⟩ 1040, .drop, .push 2 2 ⟨7, 6000, by norm_num⟩ 6040,
  .read 1 ⟨5000, by norm_num⟩ 6040]

/-- The read serves the candle of the bucket that the drop cut. -/
theorem ring_holes_readBeforeFirstTick : ¬ ∀ (o : CandleRingOptions) (acts : List RingAct),
    RunOk (WatchedRing.act o) (WatchedRing.clean o) {} acts := by
  intro h
  have hrun := h ⟨300, 2000, [⟨5000, by norm_num⟩, ⟨60000, by norm_num⟩], by norm_num, by norm_num⟩
    readBeforeFirstTick
  have hclean := hrun.2.2.2.1 ⟨0, 5, 5, 5, 5⟩ (by decide +kernel)
  exact nomatch hclean.symm.trans (show _ = true by decide +kernel)

end Binarius
