import Mathlib.Tactic
import Mathlib.Data.List.TakeWhile
import Binarius.Lib.Runs
import Binarius.Lib.OrderedMap
import Binarius.Signal.Ticks
import Binarius.MarketData.Seconds

/-!
# MarketData.TickStore — the data socket's ticks per pair (apps/backend/src/market-data/ticks.ts)

A pair's ticks are kept in the order they arrived; its front is pruned by age and by the cap, and the floor
says below what they are not whole.

* `TickStore.push`, `onDrop`, `between`: the two writers and the window.
* `TickPeriod`: a drop's period, read off the log alone.
* `prune_spec`: **pruning raises the floor over all it takes**; `complete_of_prune`: and makes no window
  complete.
* `tick_store`: **a complete window holds every tick**, in order, and meets no drop period.
-/

namespace Binarius

open Lib

structure TickStoreOptions where
  bufferMs : ℚ
  maxPerPair : ℕ
  aheadMs : ℚ

inductive TickCoverage
  | complete
  | uncovered
  | hole
  deriving DecidableEq, Repr

structure PairWindow where
  /-- in arrival order -/
  held : List LastTick
  watermark : ℚ
  /-- ticks below it are gone or refused -/
  floorMs : WithBot ℚ
  holes : List (ℚ × ℚ)
  holePending : Bool
  dropWatermark : Option ℚ

structure TickStoreCounters where
  ahead : ℕ := 0
  dropped : ℕ := 0
  holes : ℕ := 0
  deriving DecidableEq, Repr

structure TickStore where
  newest : OrderedMap ℕ LastTick := .empty
  pairs : OrderedMap ℕ PairWindow := .empty
  /-- the first accepted tick of the process, any pair -/
  coveredSinceMs : Option ℚ := none
  totals : TickStoreCounters := {}

namespace PairWindow

variable (o : TickStoreOptions)

/-- The ticks pushed out by the cap: the floor after them, the ticks that stay, and how many went. -/
def capFront (floorMs : WithBot ℚ) : List LastTick → WithBot ℚ × List LastTick × ℕ
  | [] => (floorMs, [], 0)
  | tick :: rest =>
    if o.maxPerPair < (tick :: rest).length then
      let (floor, stay, gone) := capFront (max floorMs ((tick.timestamp + 1 : ℚ) : WithBot ℚ)) rest
      (floor, stay, gone + 1)
    else (floorMs, tick :: rest, 0)

/-- `prune`: by age, by the cap, and the holes the floor has passed; how many the cap pushed out. -/
def prune (pair : PairWindow) : PairWindow × ℕ :=
  let floorMs := max pair.floorMs ((pair.watermark - o.bufferMs : ℚ) : WithBot ℚ)
  let held := pair.held.dropWhile (fun tick => decide ((tick.timestamp : WithBot ℚ) < floorMs))
  let (floor, stay, gone) := capFront o floorMs held
  ({ pair with
      held := stay
      floorMs := floor
      holes := pair.holes.filter (fun hole => decide (floor ≤ (hole.2 : WithBot ℚ))) }, gone)

/-- A pair's first tick. -/
def opened (clamped : ℚ) : PairWindow where
  held := []
  watermark := clamped
  floorMs := ⊥
  holes := []
  holePending := false
  dropWatermark := none

def endsHole (pair : PairWindow) (timestamp : ℚ) : Bool :=
  pair.holePending && pair.dropWatermark.all (fun mark => decide (mark < timestamp))

/-- The hole a tick ends. -/
def closeHole (pair : PairWindow) (timestamp : ℚ) : PairWindow :=
  if pair.endsHole timestamp then
    { pair with
      holes := pair.holes ++ [(pair.dropWatermark.getD timestamp, timestamp)]
      holePending := false
      dropWatermark := none }
  else pair

/-- A tick no check refused, before pruning. -/
def take (pair : PairWindow) (tick : LastTick) (clamped : ℚ) : PairWindow :=
  let pair := pair.closeHole tick.timestamp
  { pair with held := pair.held ++ [tick], watermark := max pair.watermark clamped }

def drop (pair : PairWindow) : PairWindow :=
  if pair.holePending then pair
  else { pair with holePending := true, dropWatermark := some pair.watermark }

end PairWindow

/-- `fromMs <= timestamp <= untilMs`. -/
def inWindow (fromMs untilMs : ℚ) (tick : LastTick) : Bool :=
  decide (fromMs ≤ tick.timestamp ∧ tick.timestamp ≤ untilMs)

/-- By timestamp, then by receipt. -/
def LastTick.before (a b : LastTick) : Bool :=
  decide (a.timestamp < b.timestamp ∨ a.timestamp = b.timestamp ∧ a.receivedAtMs ≤ b.receivedAtMs)

/-- How much of a window the store saw. -/
def tickCoverage (coveredSinceMs : Option ℚ) (pair : Option PairWindow) (fromMs untilMs : ℚ) :
    TickCoverage :=
  if coveredSinceMs.all (fun since => decide (fromMs < since)) ∨
      pair.any (fun pair => decide ((fromMs : WithBot ℚ) < pair.floorMs)) then .uncovered
  else if pair.any (fun pair =>
      pair.holes.any (fun hole => decide (hole.1 ≤ untilMs ∧ fromMs ≤ hole.2)) ||
        (pair.holePending && pair.dropWatermark.all (fun mark => decide (mark ≤ untilMs)))) then .hole
  else .complete

namespace TickStore

variable (o : TickStoreOptions) (s : TickStore)

/-- The time of a tick, held to its receipt and the margin. -/
def clamp (timestamp receivedAtMs : ℚ) : ℚ := min timestamp (receivedAtMs + o.aheadMs)

/-- A tick of a known pair is refused below the floor. -/
def accepts (assetId : ℕ) (timestamp : ℚ) : Bool :=
  (s.pairs.get? assetId).all (fun pair => decide (pair.floorMs ≤ (timestamp : WithBot ℚ)))

def push (assetId : ℕ) (tick : Tick) (receivedAtMs : ℚ) : TickStore :=
  if tickProblem tick receivedAtMs ≠ none then s
  else
    let last : LastTick := { price := tick.price, timestamp := tick.timestamp, receivedAtMs }
    let newest :=
      if (s.newest.get? assetId).all (fun held => decide (held.timestamp ≤ tick.timestamp)) then
        s.newest.set assetId last
      else s.newest
    let ahead := if receivedAtMs + o.aheadMs < tick.timestamp then s.totals.ahead + 1 else s.totals.ahead
    let clamped := clamp o tick.timestamp receivedAtMs
    if s.accepts assetId tick.timestamp then
      let pair := (s.pairs.get? assetId).getD (.opened clamped)
      let holes := if pair.endsHole tick.timestamp then s.totals.holes + 1 else s.totals.holes
      let (pruned, gone) := (pair.take last clamped).prune o
      { newest
        pairs := s.pairs.set assetId pruned
        coveredSinceMs := some (s.coveredSinceMs.getD clamped)
        totals := { ahead, dropped := s.totals.dropped + gone, holes } }
    else { s with newest, totals := { s.totals with ahead, dropped := s.totals.dropped + 1 } }

def last (assetId : ℕ) : Option LastTick := s.newest.get? assetId

/-- The active socket left ready. -/
def onDrop : TickStore := { s with pairs := s.pairs.mapVal (fun _ pair => pair.drop) }

def between (assetId : ℕ) (fromMs untilMs : ℚ) : List LastTick × TickCoverage :=
  let pair := s.pairs.get? assetId
  ((((pair.map PairWindow.held).getD []).filter (inWindow fromMs untilMs)).mergeSort LastTick.before,
    tickCoverage s.coveredSinceMs pair fromMs untilMs)

def watermark (assetId : ℕ) : Option ℚ := (s.pairs.get? assetId).map PairWindow.watermark

end TickStore

/-! ## Pruning -/

section Prune

variable {o : TickStoreOptions} {pair : PairWindow}

/-- The cap takes a front, and the floor rises over it. -/
theorem capFront_spec (floorMs : WithBot ℚ) (held : List LastTick) :
    ∃ front, held = front ++ (PairWindow.capFront o floorMs held).2.1 ∧
      floorMs ≤ (PairWindow.capFront o floorMs held).1 ∧
      ∀ tick ∈ front, (tick.timestamp : WithBot ℚ) < (PairWindow.capFront o floorMs held).1 := by
  induction held generalizing floorMs with
  | nil => exact ⟨[], rfl, le_refl _, fun _ h => absurd h List.not_mem_nil⟩
  | cons tick rest ih =>
    unfold PairWindow.capFront
    split_ifs with hfull
    · obtain ⟨front, hheld, hfloor, hfront⟩ := ih (max floorMs ((tick.timestamp + 1 : ℚ) : WithBot ℚ))
      refine ⟨tick :: front, congrArg (tick :: ·) hheld, (le_max_left _ _).trans hfloor, ?_⟩
      intro t ht
      rcases List.mem_cons.mp ht with rfl | hrest
      · refine lt_of_lt_of_le ?_ ((le_max_right _ _).trans hfloor)
        exact WithBot.coe_lt_coe.mpr (lt_add_one _)
      · exact hfront t hrest
    · exact ⟨[], rfl, le_refl _, fun _ h => absurd h List.not_mem_nil⟩

/-- **What pruning does**: a front goes, the floor rises over it, and only holes below the floor go. -/
structure Pruned (pair pruned : PairWindow) : Prop where
  held : ∃ front, pair.held = front ++ pruned.held ∧
    ∀ tick ∈ front, (tick.timestamp : WithBot ℚ) < pruned.floorMs
  floor : pair.floorMs ≤ pruned.floorMs
  holes : pruned.holes = pair.holes.filter (fun hole => decide (pruned.floorMs ≤ (hole.2 : WithBot ℚ)))
  rest : pruned.watermark = pair.watermark ∧ pruned.holePending = pair.holePending ∧
    pruned.dropWatermark = pair.dropWatermark

theorem prune_spec (o : TickStoreOptions) (pair : PairWindow) : Pruned pair (pair.prune o).1 := by
  obtain ⟨aged, haged⟩ : ∃ floorMs, floorMs = max pair.floorMs ((pair.watermark - o.bufferMs : ℚ)
    : WithBot ℚ) :=
    ⟨_, rfl⟩
  obtain ⟨front, hheld, hfloor, hfront⟩ := @capFront_spec o aged
    (pair.held.dropWhile (fun tick => decide ((tick.timestamp : WithBot ℚ) < aged)))
  unfold PairWindow.prune
  simp only
  rw [← haged]
  refine ⟨⟨pair.held.takeWhile (fun tick => decide ((tick.timestamp : WithBot ℚ) < aged)) ++ front, ?_, ?_⟩,
    ?_, rfl, rfl, rfl, rfl⟩
  · rw [List.append_assoc, ← hheld, List.takeWhile_append_dropWhile]
  · intro tick htick
    rcases List.mem_append.mp htick with hage | hcap
    · have hlt := List.mem_takeWhile_imp hage
      exact lt_of_lt_of_le (of_decide_eq_true hlt) hfloor
    · exact hfront tick hcap
  · refine le_trans ?_ hfloor
    rw [haged]
    exact le_max_left _ _

/-- What a complete window says. -/
theorem complete_iff {since : Option ℚ} {fromMs untilMs : ℚ} :
    tickCoverage since (some pair) fromMs untilMs = .complete ↔
      (∃ t, since = some t ∧ t ≤ fromMs) ∧ pair.floorMs ≤ (fromMs : WithBot ℚ) ∧
      (∀ hole ∈ pair.holes, ¬ (hole.1 ≤ untilMs ∧ fromMs ≤ hole.2)) ∧
      (pair.holePending = true → ∃ mark, pair.dropWatermark = some mark ∧ untilMs < mark) := by
  unfold tickCoverage
  rw [Option.any_some, Option.any_some]
  constructor
  · intro h
    split_ifs at h with huncovered hhole
    obtain ⟨hsince, hfloor⟩ := not_or.mp huncovered
    rw [Bool.or_eq_true, not_or] at hhole
    obtain ⟨hholes, hpending⟩ := hhole
    refine ⟨?_, ?_, fun hole hmem hover => hholes (List.any_eq_true.mpr ⟨hole, hmem, decide_eq_true hover⟩),
      fun hp => ?_⟩
    · cases since with
      | none => exact absurd rfl hsince
      | some t => exact ⟨t, rfl, by simpa using hsince⟩
    · simpa using hfloor
    · rw [hp, Bool.true_and] at hpending
      cases hmark : pair.dropWatermark with
      | none =>
        rw [hmark] at hpending
        exact absurd rfl hpending
      | some mark =>
        rw [hmark] at hpending
        exact ⟨mark, rfl, by simpa using hpending⟩
  · rintro ⟨⟨t, rfl, ht⟩, hfloor, hholes, hpending⟩
    rw [if_neg, if_neg]
    · rw [Bool.or_eq_true, not_or]
      constructor
      · intro hany
        obtain ⟨hole, hmem, hover⟩ := List.any_eq_true.mp hany
        exact hholes hole hmem (of_decide_eq_true hover)
      · intro hboth
        rw [Bool.and_eq_true] at hboth
        obtain ⟨mark, hmark, hlt⟩ := hpending hboth.1
        have hle := hboth.2
        rw [hmark] at hle
        exact absurd (of_decide_eq_true hle) (not_le.mpr hlt)
    · rintro (hsince | hlow)
      · exact absurd (of_decide_eq_true hsince) (not_lt.mpr ht)
      · exact absurd (of_decide_eq_true hlow) (not_lt.mpr hfloor)

/-- **Pruning and the cap make no window complete.** -/
theorem complete_of_prune {since : Option ℚ} {fromMs untilMs : ℚ}
    (h : tickCoverage since (some (pair.prune o).1) fromMs untilMs = .complete) :
    tickCoverage since (some pair) fromMs untilMs = .complete := by
  obtain ⟨-, hfloor, hkept, -, hpending, hmark⟩ := prune_spec o pair
  obtain ⟨hsince, hfrom, hholes, hpend⟩ := complete_iff.mp h
  rw [hpending, hmark] at hpend
  refine complete_iff.mpr ⟨hsince, hfloor.trans hfrom, fun hole hmem hover => ?_, hpend⟩
  -- a hole of the window is above the floor, so it stays
  refine hholes hole ?_ hover
  rw [hkept]
  exact List.mem_filter.mpr ⟨hmem, decide_eq_true (hfrom.trans (WithBot.coe_le_coe.mpr hover.2))⟩

end Prune

/-! ## The log -/

/-- What happened to the store: a tick no check refused, kept or below its pair's floor, or a drop. -/
inductive TickEntry
  | tick (assetId : ℕ) (tick : LastTick) (kept : Bool)
  | dropped

namespace TickEntry

/-- The pair's tick. -/
def tick? (assetId : ℕ) : TickEntry → Option LastTick
  | .tick a t _ => if a = assetId then some t else none
  | .dropped => none

/-- The pair's tick, if the store took it. -/
def kept? (assetId : ℕ) : TickEntry → Option LastTick
  | .tick a t true => if a = assetId then some t else none
  | _ => none

end TickEntry

def arrivalsOf (assetId : ℕ) (log : List TickEntry) : List LastTick :=
    log.filterMap (TickEntry.tick? assetId)

def keptOf (assetId : ℕ) (log : List TickEntry) : List LastTick := log.filterMap (TickEntry.kept? assetId)

/-- The newest time of the ticks, each held to its receipt. -/
def watermarkOf (o : TickStoreOptions) (ticks : List LastTick) : Option ℚ :=
  ticks.foldl (fun w t =>
    some (w.elim (TickStore.clamp o t.timestamp t.receivedAtMs)
      (max · (TickStore.clamp o t.timestamp t.receivedAtMs))))
    none

/-- **A drop's period**: from the pair's watermark at the drop to its first newer tick, if there is one. -/
def TickPeriod (o : TickStoreOptions) (assetId : ℕ) (log : List TickEntry) (mark : ℚ) (newer : Option ℚ)
    : Prop :=
  ∃ before after, log = before ++ .dropped :: after ∧ watermarkOf o (keptOf assetId before) = some mark ∧
    newer = ((keptOf assetId after).map LastTick.timestamp).find? (fun t => decide (mark < t))

section Log

variable {o : TickStoreOptions} {assetId : ℕ} {log : List TickEntry} {mark : ℚ} {newer : Option ℚ}

theorem arrivalsOf_snoc (log : List TickEntry) (e : TickEntry) :
    arrivalsOf assetId (log ++ [e]) = arrivalsOf assetId log ++ (e.tick? assetId).toList := by
  unfold arrivalsOf
  rw [List.filterMap_append]
  cases h : e.tick? assetId with
  | none => simp [h]
  | some t => simp [h]

theorem keptOf_snoc (log : List TickEntry) (e : TickEntry) :
    keptOf assetId (log ++ [e]) = keptOf assetId log ++ (e.kept? assetId).toList := by
  unfold keptOf
  rw [List.filterMap_append]
  cases h : e.kept? assetId with
  | none => simp [h]
  | some t => simp [h]

/-- The periods after one more entry: a drop opens one, a newer tick ends those that are open. -/
theorem TickPeriod.of_snoc {e : TickEntry} (h : TickPeriod o assetId (log ++ [e]) mark newer) :
    (e = .dropped ∧ watermarkOf o (keptOf assetId log) = some mark ∧ newer = none) ∨
      ∃ newer₀, TickPeriod o assetId log mark newer₀ ∧
        newer = newer₀.or (((e.kept? assetId).map LastTick.timestamp).filter (fun t =>
          decide (mark < t))) := by
  obtain ⟨before, after, heq, hmark, hnewer⟩ := h
  rcases List.eq_nil_or_concat after with rfl | ⟨after', e', rfl⟩
  · left
    obtain ⟨rfl, he⟩ := List.append_inj' heq rfl
    exact ⟨List.singleton_inj.mp he, hmark, hnewer⟩
  · right
    rw [List.concat_eq_append, ← List.cons_append, ← List.append_assoc] at heq
    obtain ⟨rfl, he⟩ := List.append_inj' heq rfl
    obtain rfl := List.singleton_inj.mp he
    refine ⟨_, ⟨before, after', rfl, hmark, rfl⟩, ?_⟩
    rw [hnewer, List.concat_eq_append, keptOf_snoc, List.map_append, List.find?_append]
    refine congrArg _ ?_
    cases e.kept? assetId with
    | none => rfl
    | some t =>
      show List.find? _ [t.timestamp] = (some t.timestamp).filter _
      rw [Option.filter_some, List.find?_singleton]

end Log

/-! ## Runs -/

inductive TickAct
  | push (assetId : ℕ) (tick : Tick) (receivedAtMs : ℚ)
  | onDrop

structure TickRun where
  store : TickStore
  log : List TickEntry

def TickRun.act (o : TickStoreOptions) (w : TickRun) : TickAct → TickRun
  | .push assetId tick receivedAtMs =>
    { store := w.store.push o assetId tick receivedAtMs
      log := if tickProblem tick receivedAtMs = none then
        w.log ++ [.tick assetId { price := tick.price, timestamp := tick.timestamp, receivedAtMs }
          (w.store.accepts assetId tick.timestamp)]
        else w.log }
  | .onDrop => { store := w.store.onDrop, log := w.log ++ [.dropped] }

/-- A pair of the store after its log. -/
structure TickPairInv (o : TickStoreOptions) (assetId : ℕ) (log : List TickEntry) (pair : PairWindow) :
    Prop where
  held : ∀ fromMs : ℚ, pair.floorMs ≤ (fromMs : WithBot ℚ) →
    (arrivalsOf assetId log).filter (fun t => decide (fromMs ≤ t.timestamp)) =
      pair.held.filter (fun t => decide (fromMs ≤ t.timestamp))
  watermark : watermarkOf o (keptOf assetId log) = some pair.watermark
  pending : pair.holePending = true → pair.dropWatermark = some pair.watermark
  opens : ∀ mark, TickPeriod o assetId log mark none → pair.holePending = true ∧ mark = pair.watermark
  ends : ∀ mark newer, TickPeriod o assetId log mark (some newer) →
    (mark, newer) ∈ pair.holes ∨ (newer : WithBot ℚ) < pair.floorMs

/-- What a run keeps: of a pair never heard there is no tick. -/
def TickRun.Inv (o : TickStoreOptions) (w : TickRun) : Prop :=
  ∀ assetId, (w.store.pairs.get? assetId = none ∧ arrivalsOf assetId w.log = []) ∨
    ∃ pair, w.store.pairs.get? assetId = some pair ∧ TickPairInv o assetId w.log pair

section Run

variable {o : TickStoreOptions} {assetId : ℕ} {log : List TickEntry} {pair : PairWindow}

/-- A kept tick is a tick. -/
theorem keptOf_sublist (assetId : ℕ) (log : List TickEntry) :
    (keptOf assetId log).Sublist (arrivalsOf assetId log) := by
  induction log with
  | nil => exact List.Sublist.refl _
  | cons e log ih =>
    unfold keptOf arrivalsOf
    cases e with
    | dropped => exact ih
    | tick a t kept =>
      by_cases ha : a = assetId
      · cases kept with
        | true =>
          rw [List.filterMap_cons_some (b := t) (by simp [TickEntry.kept?, ha]),
            List.filterMap_cons_some (b := t) (by simp [TickEntry.tick?, ha])]
          exact ih.cons_cons t
        | false =>
          rw [List.filterMap_cons_none (by simp [TickEntry.kept?]),
            List.filterMap_cons_some (b := t) (by simp [TickEntry.tick?, ha])]
          exact ih.cons t
      · rw [List.filterMap_cons_none (by cases kept <;> simp [TickEntry.kept?, ha]),
          List.filterMap_cons_none (by simp [TickEntry.tick?, ha])]
        exact ih

/-- A pair never heard has no period. -/
theorem no_period (hnone : arrivalsOf assetId log = []) {mark : ℚ} {newer : Option ℚ} :
    ¬ TickPeriod o assetId log mark newer := by
  rintro ⟨before, after, rfl, hmark, -⟩
  have hkept : keptOf assetId before = [] := by
    have hsub := (keptOf_sublist assetId (before ++ .dropped :: after))
    rw [hnone, List.sublist_nil] at hsub
    unfold keptOf at hsub
    rw [List.filterMap_append] at hsub
    exact (List.append_eq_nil_iff.mp hsub).1
  rw [hkept] at hmark
  cases hmark

theorem watermarkOf_snoc (ticks : List LastTick) (t : LastTick) :
    watermarkOf o (ticks ++ [t]) = some ((watermarkOf o ticks).elim
      (TickStore.clamp o t.timestamp t.receivedAtMs)
        (max · (TickStore.clamp o t.timestamp t.receivedAtMs))) := by
  unfold watermarkOf
  rw [List.foldl_append]
  rfl

/-- Pruning keeps the pair's log. -/
theorem TickPairInv.prune (h : TickPairInv o assetId log pair) :
    TickPairInv o assetId log (pair.prune o).1 := by
  obtain ⟨⟨front, hheld, hfront⟩, hfloor, hholes, hwatermark, hpending, hmark⟩ := prune_spec o pair
  refine ⟨fun fromMs hfrom => ?_, ?_, ?_, ?_, fun mark newer hperiod => ?_⟩
  · rw [h.held fromMs (hfloor.trans hfrom), hheld, List.filter_append]
    have hnone : front.filter (fun t => decide (fromMs ≤ t.timestamp)) = [] := by
      rw [List.filter_eq_nil_iff]
      intro t ht hle
      have hlt := lt_of_lt_of_le (hfront t ht) hfrom
      exact absurd (of_decide_eq_true hle) (not_le.mpr (WithBot.coe_lt_coe.mp hlt))
    rw [hnone, List.nil_append]
  · rw [hwatermark]
    exact h.watermark
  · rw [hpending, hmark, hwatermark]
    exact h.pending
  · rw [hpending, hwatermark]
    exact h.opens
  · by_cases hlow : (newer : WithBot ℚ) < (pair.prune o).1.floorMs
    · exact .inr hlow
    · rcases h.ends mark newer hperiod with hmem | hbelow
      · left
        rw [hholes]
        exact List.mem_filter.mpr ⟨hmem, decide_eq_true (not_lt.mp hlow)⟩
      · exact absurd (lt_of_lt_of_le hbelow hfloor) hlow

/-- A tick of another pair. -/
theorem TickPairInv.other (h : TickPairInv o assetId log pair) {a : ℕ} (ha : a ≠ assetId) (t : LastTick)
    (kept : Bool) : TickPairInv o assetId (log ++ [.tick a t kept]) pair := by
  have htick : (TickEntry.tick a t kept).tick? assetId = none := if_neg ha
  have hkept : (TickEntry.tick a t kept).kept? assetId = none := by
    cases kept with
    | true => exact if_neg ha
    | false => rfl
  have hperiod : ∀ {mark newer}, TickPeriod o assetId (log ++ [.tick a t kept]) mark newer →
      TickPeriod o assetId log mark newer := by
    intro mark newer hp
    rcases hp.of_snoc with ⟨hdrop, -⟩ | ⟨newer₀, hold, rfl⟩
    · cases hdrop
    · rw [hkept, Option.map_none, Option.filter_none, Option.or_none]
      exact hold
  refine ⟨?_, ?_, h.pending, fun mark hp => h.opens mark (hperiod hp), fun mark newer hp =>
    h.ends mark newer
    (hperiod hp)⟩
  · rw [arrivalsOf_snoc, htick, Option.toList_none, List.append_nil]
    exact h.held
  · rw [keptOf_snoc, hkept, Option.toList_none, List.append_nil]
    exact h.watermark

/-- A tick below the floor is refused. -/
theorem TickPairInv.refused (h : TickPairInv o assetId log pair) {t : LastTick}
    (hlow : (t.timestamp : WithBot ℚ) < pair.floorMs) :
    TickPairInv o assetId (log ++ [.tick assetId t false]) pair := by
  have hperiod : ∀ {mark newer}, TickPeriod o assetId (log ++ [.tick assetId t false]) mark newer →
      TickPeriod o assetId log mark newer := by
    intro mark newer hp
    rcases hp.of_snoc with ⟨hdrop, -⟩ | ⟨newer₀, hold, rfl⟩
    · cases hdrop
    · exact (Option.or_none (o := newer₀)).symm ▸ hold
  refine ⟨fun fromMs hfrom => ?_, ?_, h.pending, fun mark hp => h.opens mark (hperiod hp),
    fun mark newer hp => h.ends mark newer (hperiod hp)⟩
  · have hout : ¬ fromMs ≤ t.timestamp := not_le.mpr (WithBot.coe_lt_coe.mp (lt_of_lt_of_le hlow hfrom))
    have htick : (TickEntry.tick assetId t false).tick? assetId = some t := if_pos rfl
    rw [arrivalsOf_snoc, htick, Option.toList_some, List.filter_append,
      List.filter_cons_of_neg (by simpa using hout), List.filter_nil, List.append_nil]
    exact h.held fromMs hfrom
  · rw [keptOf_snoc]
    show watermarkOf o (keptOf assetId log ++ []) = _
    rw [List.append_nil]
    exact h.watermark

theorem clamp_le (t : LastTick) : TickStore.clamp o t.timestamp t.receivedAtMs ≤ t.timestamp :=
    min_le_left _ _

/-- A pending hole's mark is the watermark. -/
theorem TickPairInv.endsHole_iff (h : TickPairInv o assetId log pair) (timestamp : ℚ) :
    pair.endsHole timestamp = true ↔ pair.holePending = true ∧ pair.watermark < timestamp := by
  unfold PairWindow.endsHole
  rw [Bool.and_eq_true]
  constructor
  · rintro ⟨hp, hmark⟩
    rw [h.pending hp] at hmark
    exact ⟨hp, of_decide_eq_true hmark⟩
  · rintro ⟨hp, hlt⟩
    rw [h.pending hp]
    exact ⟨hp, decide_eq_true hlt⟩

/-- **A kept tick**: it ends the periods whose mark it passes. -/
theorem TickPairInv.take (h : TickPairInv o assetId log pair) (t : LastTick) :
    TickPairInv o assetId (log ++ [.tick assetId t true])
      (pair.take t (TickStore.clamp o t.timestamp t.receivedAtMs)) := by
  have htick : (TickEntry.tick assetId t true).tick? assetId = some t := if_pos rfl
  have hkept : (TickEntry.tick assetId t true).kept? assetId = some t := if_pos rfl
  have hwatermark : watermarkOf o (keptOf assetId (log ++ [.tick assetId t true])) =
      some (max pair.watermark (TickStore.clamp o t.timestamp t.receivedAtMs)) := by
    rw [keptOf_snoc, hkept, Option.toList_some, watermarkOf_snoc, h.watermark]
    rfl
  -- a tick that passes no mark moves no watermark while a hole is pending
  have hstays : pair.endsHole t.timestamp = false → pair.holePending = true →
      max pair.watermark (TickStore.clamp o t.timestamp t.receivedAtMs) = pair.watermark := by
    intro hends hp
    refine max_eq_left ((clamp_le t).trans ?_)
    by_contra hlt
    rw [(h.endsHole_iff t.timestamp).mpr ⟨hp, not_le.mp hlt⟩] at hends
    cases hends
  have hheld : ∀ p : PairWindow, p.floorMs = pair.floorMs → p.held = pair.held ++ [t] →
      ∀ fromMs : ℚ, p.floorMs ≤ (fromMs : WithBot ℚ) →
        (arrivalsOf assetId (log ++ [.tick assetId t true])).filter (fun t =>
          decide (fromMs ≤ t.timestamp)) =
          p.held.filter (fun t => decide (fromMs ≤ t.timestamp)) := by
    intro p hfloor hp fromMs hfrom
    rw [arrivalsOf_snoc, htick, Option.toList_some, List.filter_append, h.held fromMs (hfloor ▸ hfrom), hp,
      List.filter_append]
  unfold PairWindow.take PairWindow.closeHole
  simp only
  cases hends : pair.endsHole t.timestamp with
  | true =>
    rw [if_pos rfl]
    obtain ⟨hp, hlt⟩ := (h.endsHole_iff t.timestamp).mp hends
    refine ⟨hheld _ rfl rfl, hwatermark, fun hno => absurd hno Bool.false_ne_true, fun mark hperiod => ?_,
      fun mark newer hperiod => ?_⟩
    · rcases hperiod.of_snoc with ⟨hdrop, -⟩ | ⟨newer₀, hold, hnone⟩
      · cases hdrop
      · rw [hkept, Option.map_some, eq_comm, Option.or_eq_none_iff] at hnone
        obtain ⟨rfl, hpast⟩ := hnone
        obtain ⟨-, rfl⟩ := h.opens mark hold
        rw [Option.filter_some, if_pos (decide_eq_true hlt)] at hpast
        cases hpast
    · rcases hperiod.of_snoc with ⟨hdrop, -⟩ | ⟨newer₀, hold, hsome⟩
      · cases hdrop
      · cases newer₀ with
        | some n =>
          obtain rfl : newer = n := Option.some.inj hsome
          rcases h.ends mark newer hold with hmem | hbelow
          · exact .inl (List.mem_append_left _ hmem)
          · exact .inr hbelow
        | none =>
          obtain ⟨-, rfl⟩ := h.opens mark hold
          rw [hkept, Option.map_some, Option.none_or, Option.filter_some,
            if_pos (decide_eq_true hlt)] at hsome
          obtain rfl := Option.some.inj hsome
          left
          rw [h.pending hp]
          exact List.mem_append_right _ List.mem_cons_self
  | false =>
    rw [if_neg Bool.false_ne_true]
    refine ⟨hheld _ rfl rfl, hwatermark, fun hp => ?_, fun mark hperiod => ?_, fun mark newer hperiod => ?_⟩
    · show pair.dropWatermark = some (max pair.watermark _)
      rw [hstays hends hp]
      exact h.pending hp
    · rcases hperiod.of_snoc with ⟨hdrop, -⟩ | ⟨newer₀, hold, hnone⟩
      · cases hdrop
      · rw [eq_comm, Option.or_eq_none_iff] at hnone
        obtain ⟨rfl, -⟩ := hnone
        obtain ⟨hp, rfl⟩ := h.opens mark hold
        exact ⟨hp, (hstays hends hp).symm⟩
    · rcases hperiod.of_snoc with ⟨hdrop, -⟩ | ⟨newer₀, hold, hsome⟩
      · cases hdrop
      · cases newer₀ with
        | some n =>
          obtain rfl : newer = n := Option.some.inj hsome
          exact h.ends mark newer hold
        | none =>
          -- an open period that a tick ends is a pending hole
          obtain ⟨hp, rfl⟩ := h.opens mark hold
          rw [hkept, Option.map_some, Option.none_or, Option.filter_some] at hsome
          split_ifs at hsome with hpast
          rw [(h.endsHole_iff t.timestamp).mpr ⟨hp, of_decide_eq_true hpast⟩] at hends
          cases hends

/-- A pair's first tick. -/
theorem tickPairInv_opened (hnone : arrivalsOf assetId log = []) (t : LastTick) :
    TickPairInv o assetId (log ++ [.tick assetId t true])
      ((PairWindow.opened (TickStore.clamp o t.timestamp t.receivedAtMs)).take t
        (TickStore.clamp o t.timestamp t.receivedAtMs)) := by
  have hkeptNone : keptOf assetId log = [] := by
    have hsub := keptOf_sublist assetId log
    rw [hnone, List.sublist_nil] at hsub
    exact hsub
  have htick : (TickEntry.tick assetId t true).tick? assetId = some t := if_pos rfl
  have hkept : (TickEntry.tick assetId t true).kept? assetId = some t := if_pos rfl
  have hperiod : ∀ {mark newer}, ¬ TickPeriod o assetId (log ++ [.tick assetId t true]) mark newer := by
    intro mark newer hp
    rcases hp.of_snoc with ⟨hdrop, -⟩ | ⟨newer₀, hold, -⟩
    · cases hdrop
    · exact no_period hnone hold
  refine ⟨fun fromMs _ => ?_, ?_, fun hno => absurd hno Bool.false_ne_true, fun mark hp =>
    (hperiod hp).elim,
    fun mark newer hp => (hperiod hp).elim⟩
  · rw [arrivalsOf_snoc, hnone, htick]
    rfl
  · rw [keptOf_snoc, hkeptNone, hkept]
    show some (TickStore.clamp o t.timestamp t.receivedAtMs) = some (max
      (TickStore.clamp o t.timestamp t.receivedAtMs) (TickStore.clamp o t.timestamp t.receivedAtMs))
    rw [max_self]

/-- **A drop** opens a period at the watermark, or stands in the one that is open. -/
theorem TickPairInv.drop (h : TickPairInv o assetId log pair) :
    TickPairInv o assetId (log ++ [.dropped]) pair.drop := by
  have hperiod : ∀ {mark newer}, TickPeriod o assetId (log ++ [.dropped]) mark newer →
      newer = none ∧ mark = pair.watermark ∨ TickPeriod o assetId log mark newer := by
    intro mark newer hp
    rcases hp.of_snoc with ⟨-, hmark, rfl⟩ | ⟨newer₀, hold, rfl⟩
    · exact .inl ⟨rfl, (Option.some.inj (h.watermark.symm.trans hmark)).symm⟩
    · right
      show TickPeriod o assetId log mark (newer₀.or none)
      rw [Option.or_none]
      exact hold
  have hlog : arrivalsOf assetId (log ++ [.dropped]) = arrivalsOf assetId log ∧
      keptOf assetId (log ++ [.dropped]) = keptOf assetId log := by
    rw [arrivalsOf_snoc, keptOf_snoc]
    exact ⟨List.append_nil _, List.append_nil _⟩
  have hopens : ∀ mark, TickPeriod o assetId (log ++ [.dropped]) mark none → mark = pair.watermark := by
    intro mark hp
    rcases hperiod hp with ⟨-, hmark⟩ | hold
    · exact hmark
    · exact (h.opens mark hold).2
  have hends : ∀ mark newer, TickPeriod o assetId (log ++ [.dropped]) mark (some newer) →
      (mark, newer) ∈ pair.holes ∨ (newer : WithBot ℚ) < pair.floorMs := by
    intro mark newer hp
    rcases hperiod hp with ⟨hnone, -⟩ | hold
    · cases hnone
    · exact h.ends mark newer hold
  have hwatermark : watermarkOf o (keptOf assetId (log ++ [.dropped])) = some pair.watermark := by
    rw [hlog.2]
    exact h.watermark
  unfold PairWindow.drop
  split_ifs with hp
  · refine ⟨?_, hwatermark, h.pending, fun mark hq => ⟨hp, hopens mark hq⟩, hends⟩
    rw [hlog.1]
    exact h.held
  · refine ⟨?_, hwatermark, fun _ => rfl, fun mark hq => ⟨rfl, hopens mark hq⟩, hends⟩
    rw [hlog.1]
    exact h.held

/-- **One call keeps the store.** -/
theorem TickRun.Inv.act {w : TickRun} (h : w.Inv o) (a : TickAct) : (w.act o a).Inv o := by
  intro assetId
  cases a with
  | onDrop =>
    show ((w.store.pairs.mapVal (fun _ pair => pair.drop)).get? assetId = none ∧
      arrivalsOf assetId (w.log ++ [.dropped]) = []) ∨ ∃ pair,
        (w.store.pairs.mapVal (fun _ pair => pair.drop)).get? assetId = some pair ∧
          TickPairInv o assetId (w.log ++ [.dropped]) pair
    rw [OrderedMap.get?_mapVal]
    rcases h assetId with ⟨hnone, hticks⟩ | ⟨pair, hpair, hinv⟩
    · left
      rw [hnone, arrivalsOf_snoc, hticks]
      exact ⟨rfl, rfl⟩
    · right
      rw [hpair]
      exact ⟨pair.drop, rfl, hinv.drop⟩
  | push a tick receivedAtMs =>
    unfold TickRun.act TickStore.push
    simp only
    by_cases hproblem : tickProblem tick receivedAtMs = none
    · rw [if_pos hproblem, if_neg (by simpa using hproblem)]
      by_cases haccepts : w.store.accepts a tick.timestamp = true
      · rw [haccepts, if_pos rfl]
        show ((w.store.pairs.set a _).get? assetId = none ∧ _) ∨
          ∃ pair, (w.store.pairs.set a _).get? assetId = some pair ∧ _
        rw [OrderedMap.get?_set]
        by_cases ha : a = assetId
        · subst ha
          right
          rw [if_pos rfl]
          refine ⟨_, rfl, TickPairInv.prune ?_⟩
          rcases h a with ⟨hnone, hticks⟩ | ⟨pair, hpair, hinv⟩
          · rw [hnone]
            exact tickPairInv_opened hticks ⟨tick.price, tick.timestamp, receivedAtMs⟩
          · rw [hpair]
            exact hinv.take ⟨tick.price, tick.timestamp, receivedAtMs⟩
        · rw [if_neg ha]
          rcases h assetId with ⟨hnone, hticks⟩ | ⟨pair, hpair, hinv⟩
          · left
            refine ⟨hnone, ?_⟩
            rw [arrivalsOf_snoc, hticks]
            show (TickEntry.tick? assetId _).toList = []
            rw [show TickEntry.tick? assetId (.tick a ⟨tick.price, tick.timestamp, receivedAtMs⟩ true) =
              none from
              if_neg ha]
            rfl
          · exact .inr ⟨pair, hpair, hinv.other ha _ _⟩
      · rw [if_neg haccepts, Bool.eq_false_of_not_eq_true haccepts]
        -- only a pair of the store refuses a tick
        unfold TickStore.accepts at haccepts
        rcases h assetId with ⟨hnone, hticks⟩ | ⟨pair, hpair, hinv⟩
        · left
          refine ⟨hnone, ?_⟩
          have ha : a ≠ assetId := by
            rintro rfl
            rw [hnone] at haccepts
            exact haccepts rfl
          rw [arrivalsOf_snoc, hticks]
          rw [show TickEntry.tick? assetId (.tick a ⟨tick.price, tick.timestamp, receivedAtMs⟩ false) =
            none from
            if_neg ha]
          rfl
        · right
          refine ⟨pair, hpair, ?_⟩
          by_cases ha : a = assetId
          · subst ha
            rw [hpair] at haccepts
            exact hinv.refused (not_le.mp (by simpa using haccepts))
          · exact hinv.other ha _ _
    · rw [if_neg hproblem, if_pos hproblem]
      exact h assetId

theorem TickRun.Inv.start (o : TickStoreOptions) : TickRun.Inv o ⟨{}, []⟩ := fun _ => .inl ⟨rfl, rfl⟩

theorem LastTick.before_total (a b : LastTick) : a.before b || b.before a := by
  unfold LastTick.before
  rw [Bool.or_eq_true, decide_eq_true_iff, decide_eq_true_iff]
  rcases lt_trichotomy a.timestamp b.timestamp with hlt | heq | hgt
  · exact .inl (.inl hlt)
  · rcases le_total a.receivedAtMs b.receivedAtMs with hle | hle
    · exact .inl (.inr ⟨heq, hle⟩)
    · exact .inr (.inr ⟨heq.symm, hle⟩)
  · exact .inr (.inl hgt)

theorem LastTick.before_trans (a b c : LastTick) (hab : a.before b = true) (hbc : b.before c = true) :
    a.before c = true := by
  unfold LastTick.before at *
  rw [decide_eq_true_iff] at *
  rcases hab with hlt | ⟨heq, hle⟩
  · rcases hbc with hlt' | ⟨heq', -⟩
    · exact .inl (hlt.trans hlt')
    · exact .inl (heq' ▸ hlt)
  · rcases hbc with hlt' | ⟨heq', hle'⟩
    · exact .inl (heq ▸ hlt')
    · exact .inr ⟨heq.trans heq', hle.trans hle'⟩

/-- **Coverage is sound.**  After any ticks and drops, with every prune and eviction: a window reported
complete is every tick of the pair in it that no check refused, in order, and meets the period of no
drop; and pruning and the cap make no window complete. -/
theorem tick_store (o : TickStoreOptions) (acts : List TickAct) (assetId : ℕ) (fromMs untilMs : ℚ) :
    let w := run (TickRun.act o) ⟨{}, []⟩ acts
    ((w.store.between assetId fromMs untilMs).2 = .complete →
      (w.store.between assetId fromMs untilMs).1 =
        ((arrivalsOf assetId w.log).filter (inWindow fromMs untilMs)).mergeSort LastTick.before ∧
      (w.store.between assetId fromMs untilMs).1.Pairwise (fun a b => a.before b = true) ∧
      ∀ mark newer, TickPeriod o assetId w.log mark newer →
        ¬ (mark ≤ untilMs ∧ ∀ t, newer = some t → fromMs ≤ t)) ∧
    ∀ pair, tickCoverage w.store.coveredSinceMs (some pair) fromMs untilMs ≠ .complete →
      tickCoverage w.store.coveredSinceMs (some (pair.prune o).1) fromMs untilMs ≠ .complete := by
  intro w
  have hinv : w.Inv o := run_induction (TickRun.Inv.start o) (fun _ a h => h.act a) acts
  refine ⟨fun hcomplete => ?_, fun pair hnot h => hnot (complete_of_prune h)⟩
  unfold TickStore.between at hcomplete ⊢
  simp only at hcomplete ⊢
  refine ⟨?_, List.pairwise_mergeSort LastTick.before_trans LastTick.before_total _, ?_⟩
  · rcases hinv assetId with ⟨hnone, hticks⟩ | ⟨pair, hpair, hpairInv⟩
    · rw [hnone, hticks]
      rfl
    · rw [hpair] at hcomplete ⊢
      have hfloor := (complete_iff.mp hcomplete).2.1
      have hsplit : ∀ l : List LastTick, l.filter (inWindow fromMs untilMs) =
          (l.filter (fun t => decide (fromMs ≤ t.timestamp))).filter (fun t =>
            decide (t.timestamp ≤ untilMs)) := by
        intro l
        rw [List.filter_filter]
        refine List.filter_congr (fun t _ => ?_)
        unfold inWindow
        rw [Bool.decide_and, Bool.and_comm]
      rw [hsplit (arrivalsOf assetId w.log), hpairInv.held fromMs hfloor, ← hsplit]
      rfl
  · rintro mark newer hperiod ⟨hmark, hnewer⟩
    rcases hinv assetId with ⟨-, hticks⟩ | ⟨pair, hpair, hpairInv⟩
    · exact no_period hticks hperiod
    · rw [hpair] at hcomplete
      obtain ⟨-, hfloor, hholes, hpending⟩ := complete_iff.mp hcomplete
      cases newer with
      | none =>
        obtain ⟨hp, rfl⟩ := hpairInv.opens mark hperiod
        obtain ⟨mark', hmark', hlt⟩ := hpending hp
        obtain rfl := Option.some.inj ((hpairInv.pending hp).symm.trans hmark')
        exact absurd hmark (not_le.mpr hlt)
      | some t =>
        rcases hpairInv.ends mark t hperiod with hmem | hbelow
        · exact hholes (mark, t) hmem ⟨hmark, hnewer t rfl⟩
        · have hlt := WithBot.coe_lt_coe.mp (lt_of_lt_of_le hbelow hfloor)
          exact absurd (hnewer t rfl) (not_le.mpr hlt)

end Run

/-- Two ticks, a drop, and the tick that ends its period. -/
def twoTicks : List TickAct :=
  [.push 7 ⟨1, 100, by norm_num⟩ 100, .push 7 ⟨1, 200, by norm_num⟩ 200, .onDrop,
    .push 7 ⟨1, 300, by norm_num⟩ 300]

/-- The window before the drop is complete, the one over it is not. -/
theorem tick_store_two :
    let o : TickStoreOptions := { bufferMs := 240000, maxPerPair := 10000, aheadMs := 500 }
    let w := run (TickRun.act o) ⟨{}, []⟩ twoTicks
    (w.store.between 7 100 199).2 = .complete ∧ (w.store.between 7 100 200).2 = .hole ∧
      (w.store.between 7 100 199).1 = ((arrivalsOf 7 w.log).filter (inWindow 100 199)).mergeSort
        LastTick.before := by
  intro o w
  have hcomplete : (w.store.between 7 100 199).2 = .complete := by decide +kernel
  exact ⟨hcomplete, by decide +kernel, ((tick_store o twoTicks 7 100 199).1 hcomplete).1⟩

end Binarius
