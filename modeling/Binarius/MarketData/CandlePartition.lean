import Mathlib.Tactic
import Binarius.MarketData.CandleHoles
import Binarius.MarketData.Backfill
import Binarius.Signal.BuilderRuns

/-!
# MarketData.CandlePartition — a read of the candle ring splits its window, and a fill invents nothing

* `RowsOk`: the buckets of the filled rows; `RingOk`: with those of the builders' candles, **of every
  pair**.
* `read_partition`: **the closed buckets of the window are the candles' and the gaps**, each once.
* `BackfillCarried`: where a filled row came from.
* `candle_window`: so in every run of the ring with its backfill.
-/

namespace Binarius

open Lib

/-! ## The pairs -/

/-- The rows filled into buckets of the interval, each under its own. -/
def RowsOk (interval : ScanInterval) (rows : OrderedMap ℤ Candle) : Prop :=
  ∀ bucket row, rows.get? bucket = some row → row.timestamp = bucket ∧ (interval.ms : ℤ) ∣ bucket

structure PairOk (pair : RingPair) : Prop where
  builders : ∀ interval b, pair.builders.get? interval = some b → b.intervalMs = interval.ms ∧ StoredOk b
  filled : ∀ interval rows, pair.filled.get? interval = some rows → RowsOk interval rows

/-- **What every writer of the ring keeps.** -/
def RingOk (r : CandleRing) : Prop := ∀ assetId pair, r.pairs.get? assetId = some pair → PairOk pair

section Pairs

variable {o : CandleRingOptions} {r : CandleRing} {pair : RingPair}

theorem PairOk.mapped (h : PairOk pair) {f : ScanInterval → CandleBuilder → CandleBuilder}
    {holePending : Bool}
    {dropWatermark : Option ℚ}
    (hf : ∀ interval b, b.intervalMs = interval.ms → StoredOk b →
      (f interval b).intervalMs = interval.ms ∧ StoredOk (f interval b)) :
    PairOk { pair with builders := pair.builders.mapVal f, holePending, dropWatermark } := by
  refine ⟨fun interval b hb => ?_, h.filled⟩
  rw [OrderedMap.get?_mapVal] at hb
  obtain ⟨b', hb', rfl⟩ := Option.map_eq_some_iff.mp hb
  obtain ⟨hms, hstored⟩ := h.builders interval b' hb'
  exact hf interval b' hms hstored

theorem RingOk.pairOf (h : RingOk r) (assetId : ℕ) : PairOk (r.pairOf assetId) := by
  unfold CandleRing.pairOf
  cases hpair : r.pairs.get? assetId with
  | some pair => exact h assetId pair hpair
  | none =>
    refine ⟨fun interval b hb => ?_, fun interval rows hrows => ?_⟩
    · cases hb
    · cases hrows

theorem PairOk.withBuilders (h : PairOk pair) (digits : ℕ) :
    PairOk (CandleRing.withBuilders o pair digits) := by
  unfold CandleRing.withBuilders
  split_ifs
  · refine ⟨fun interval b hb => ?_, h.filled⟩
    have hall := (foldl_builders o.intervals digits o.capacity OrderedMap.empty
      (fun _ he => absurd he List.not_mem_nil)).1 (interval, b) (OrderedMap.get?_eq_some.mp hb)
    have heq : b = { intervalMs := interval.ms, digits, capacity := o.capacity } := hall
    rw [heq]
    exact ⟨rfl, StoredOk.start _ _ _⟩
  · exact h

theorem RingOk.set (h : RingOk r) {r' : CandleRing} {assetId : ℕ} (hpair : PairOk pair)
    (hpairs : r'.pairs = r.pairs.set assetId pair) : RingOk r' := by
  intro id pair' hget
  rw [hpairs, OrderedMap.get?_set] at hget
  split_ifs at hget with hk
  · cases hget
    exact hpair
  · exact h id pair' hget

theorem RingOk.acceptTick (h : RingOk r) (assetId : ℕ) (hpair : PairOk pair) (tick : Tick)
    (receivedAtMs : ℚ) :
    RingOk (r.acceptTick o assetId pair tick receivedAtMs) := by
  have hmarked : PairOk (CandleRing.markHoles pair tick.timestamp) := by
    unfold CandleRing.markHoles
    split_ifs
    · exact hpair.mapped (fun interval b hms hstored => ⟨hms, hstored.markHole _ _⟩)
    · exact hpair
  refine h.set (hmarked.mapped (fun interval b hms hstored => ⟨?_, hstored.push tick receivedAtMs⟩)) rfl
  rw [push_ms]
  exact hms

/-- **A tick of the socket.** -/
theorem RingOk.push (h : RingOk r) (assetId : ℕ) (digits : ℤ) (tick : Tick) (receivedAtMs : ℚ) :
    RingOk (r.push o assetId digits tick receivedAtMs) := by
  unfold CandleRing.push
  split
  · exact h
  · exact h
  · split_ifs
    · exact h
    · simp only
      split
      · exact h.acceptTick assetId ((h.pairOf assetId).withBuilders _) tick receivedAtMs
      · split_ifs
        · exact h.set (h.pairOf assetId) rfl
        · exact h.acceptTick assetId (h.pairOf assetId) tick receivedAtMs

theorem RingOk.onDrop (h : RingOk r) : RingOk r.onDrop := by
  intro assetId pair hget
  have hmap : (r.pairs.mapVal (fun _ pair => CandleRing.dropPair pair)).get? assetId = some pair := hget
  rw [OrderedMap.get?_mapVal] at hmap
  obtain ⟨pair', hpair', rfl⟩ := Option.map_eq_some_iff.mp hmap
  have hok := h assetId pair' hpair'
  unfold CandleRing.dropPair
  split_ifs
  · exact hok
  · exact ⟨hok.builders, hok.filled⟩

/-- What the forgetting of the rows out of the window leaves. -/
theorem get?_foldl_erase {rows : OrderedMap ℤ Candle} {gone : List ℤ} {bucket : ℤ} {row : Candle}
    (h : (gone.foldl OrderedMap.erase rows).get? bucket = some row) : rows.get? bucket = some row := by
  induction gone generalizing rows with
  | nil => exact h
  | cons first rest ih =>
    have hrest := ih h
    rw [OrderedMap.get?_erase] at hrest
    split_ifs at hrest
    exact hrest

/-- What a fill holds: rows of before, and rows of its own. -/
theorem get?_foldl_fillRow {assetId : ℕ} {interval : ScanInterval} {nowMs : ℚ} {rows : List Candle}
    {kept : OrderedMap ℤ Candle} {bucket : ℤ} {row : Candle}
    (h : (rows.foldl (r.fillRow o assetId interval nowMs) kept).get? bucket = some row) :
    kept.get? bucket = some row ∨ (row ∈ rows ∧ row.timestamp = bucket ∧ (interval.ms : ℤ) ∣ bucket) := by
  induction rows generalizing kept with
  | nil => exact .inl h
  | cons first rest ih =>
    rcases ih h with hkept | ⟨hmem, hrow⟩
    · unfold CandleRing.fillRow at hkept
      split_ifs at hkept with htaken
      · rw [OrderedMap.get?_set] at hkept
        split_ifs at hkept with hk
        · cases hkept
          exact .inr ⟨List.mem_cons_self, hk, hk ▸ Int.dvd_of_emod_eq_zero htaken.1⟩
        · exact .inl hkept
      · exact .inl hkept
    · exact .inr ⟨List.mem_cons_of_mem _ hmem, hrow⟩

/-- The filled rows of a pair after a fill. -/
theorem get?_fill {assetId : ℕ} {interval : ScanInterval} {rows : List Candle} {nowMs : ℚ} {pair : RingPair}
    (h : (r.fill o assetId interval rows nowMs).pairs.get? assetId = some pair) {interval' : ScanInterval}
    {held : OrderedMap ℤ Candle} (hheld : pair.filled.get? interval' = some held) {bucket : ℤ}
      {row : Candle}
    (hrow : held.get? bucket = some row) :
    (∃ before, (r.pairOf assetId).filled.get? interval' = some before ∧ before.get? bucket = some row) ∨
      (interval' = interval ∧ row ∈ rows ∧ row.timestamp = bucket ∧ (interval.ms : ℤ) ∣ bucket) := by
  unfold CandleRing.fill at h
  simp only at h
  rw [OrderedMap.get?_set, if_pos rfl] at h
  cases h
  simp only at hheld
  rw [OrderedMap.get?_set] at hheld
  split_ifs at hheld with hk
  · subst hk
    cases hheld
    rcases get?_foldl_fillRow hrow with hkept | hnew
    · have hbefore := get?_foldl_erase hkept
      cases hfilled : (r.pairOf assetId).filled.get? interval with
      | none =>
        rw [hfilled] at hbefore
        cases hbefore
      | some before =>
        rw [hfilled] at hbefore
        exact .inl ⟨before, rfl, hbefore⟩
    · exact .inr ⟨rfl, hnew⟩
  · exact .inl ⟨held, hheld, hrow⟩

/-- **A fill.** -/
theorem RingOk.fill (h : RingOk r) (assetId : ℕ) (interval : ScanInterval) (rows : List Candle)
    (nowMs : ℚ) :
    RingOk (r.fill o assetId interval rows nowMs) := by
  intro id pair hget
  by_cases hid : assetId = id
  · subst hid
    have hpairOf := h.pairOf assetId
    have hbuilders : pair.builders = (r.pairOf assetId).builders := by
      unfold CandleRing.fill at hget
      simp only at hget
      rw [OrderedMap.get?_set, if_pos rfl] at hget
      cases hget
      rfl
    refine ⟨fun interval' b hb => hpairOf.builders interval' b (hbuilders ▸ hb), ?_⟩
    intro interval' held hheld bucket row hrow
    rcases get?_fill hget hheld hrow with ⟨before, hbefore, hold⟩ | ⟨rfl, -, hts, hdvd⟩
    · exact hpairOf.filled interval' before hbefore bucket row hold
    · exact ⟨hts, hdvd⟩
  · unfold CandleRing.fill at hget
    simp only at hget
    rw [OrderedMap.get?_set, if_neg hid] at hget
    exact h id pair hget

end Pairs

/-! ## The read -/

section Read

variable {o : CandleRingOptions} {r : CandleRing} {assetId : ℕ} {interval : ScanInterval} {nowMs : ℚ}

/-- The bucket is of the window and closed. -/
def ClosedBucket (o : CandleRingOptions) (r : CandleRing) (interval : ScanInterval) (nowMs : ℚ)
    (bucket : ℤ) : Prop :=
  (interval.ms : ℤ) ∣ bucket ∧ CandleRing.inWindow o interval nowMs bucket = true ∧
    r.isClosed o interval nowMs bucket = true

theorem RingOk.built (h : RingOk r) (assetId : ℕ) (interval : ScanInterval) :
    (∀ candle ∈ r.built assetId interval, (interval.ms : ℤ) ∣ candle.timestamp) ∧
      ((r.built assetId interval).map Candle.timestamp).Pairwise (· < ·) := by
  unfold CandleRing.built
  cases hpair : r.pairs.get? assetId with
  | none => exact ⟨fun _ hc => absurd hc List.not_mem_nil, List.Pairwise.nil⟩
  | some pair =>
    rw [Option.bind_some]
    cases hb : pair.builders.get? interval with
    | none => exact ⟨fun _ hc => absurd hc List.not_mem_nil, List.Pairwise.nil⟩
    | some b =>
      obtain ⟨hms, hstored⟩ := (h assetId pair hpair).builders interval b hb
      exact ⟨fun candle hc => hms ▸ (hstored.buckets candle hc).1, hstored.ascending⟩

theorem RingOk.filledRows (h : RingOk r) (assetId : ℕ) (interval : ScanInterval) :
    (∀ row ∈ r.filledRows assetId interval, (interval.ms : ℤ) ∣ row.timestamp) ∧
      ((r.filledRows assetId interval).map Candle.timestamp).Nodup := by
  unfold CandleRing.filledRows
  cases hpair : r.pairs.get? assetId with
  | none => exact ⟨fun _ hc => absurd hc List.not_mem_nil, List.nodup_nil⟩
  | some pair =>
    rw [Option.bind_some]
    cases hrows : pair.filled.get? interval with
    | none => exact ⟨fun _ hc => absurd hc List.not_mem_nil, List.nodup_nil⟩
    | some rows =>
      have hok := (h assetId pair hpair).filled interval rows hrows
      have hentry : ∀ e ∈ rows.entries, e.2.timestamp = e.1 ∧ (interval.ms : ℤ) ∣ e.1 :=
        fun e he => hok e.1 e.2 (OrderedMap.get?_eq_some.mpr he)
      refine ⟨fun row hrow => ?_, ?_⟩
      · obtain ⟨e, he, rfl⟩ := List.mem_map.mp hrow
        obtain ⟨hts, hdvd⟩ := hentry e he
        exact hts ▸ hdvd
      · show ((rows.entries.map Prod.snd).map Candle.timestamp).Nodup
        have hkeys : (rows.entries.map Prod.snd).map Candle.timestamp = rows.entries.map Prod.fst := by
          rw [List.map_map]
          exact List.map_congr_left (fun e he => (hentry e he).1)
        rw [hkeys]
        exact rows.nodup

/-- The candles of a read, before they are sorted. -/
def unsorted (o : CandleRingOptions) (r : CandleRing) (assetId : ℕ) (interval : ScanInterval) (nowMs : ℚ) :
    List Candle := r.closedFilled o assetId interval nowMs ++ r.closedBuilt o assetId interval nowMs

theorem mem_unsorted {candle : Candle} (h : candle ∈ unsorted o r assetId interval nowMs) :
    (candle ∈ r.filledRows assetId interval ∨ candle ∈ r.built assetId interval) ∧
      CandleRing.inWindow o interval nowMs candle.timestamp = true ∧
      r.isClosed o interval nowMs candle.timestamp = true := by
  rcases List.mem_append.mp h with hfilled | hbuilt
  · obtain ⟨hmem, htest⟩ := List.mem_filter.mp hfilled
    rw [Bool.and_eq_true, Bool.and_eq_true] at htest
    exact ⟨.inl hmem, htest.1⟩
  · obtain ⟨hmem, htest⟩ := List.mem_filter.mp hbuilt
    rw [Bool.and_eq_true] at htest
    exact ⟨.inr hmem, htest⟩

/-- No bucket has two candles. -/
theorem RingOk.unsorted_nodup (h : RingOk r) :
    ((unsorted o r assetId interval nowMs).map Candle.timestamp).Nodup := by
  unfold unsorted
  rw [List.map_append, List.nodup_append]
  refine ⟨(h.filledRows assetId interval).2.sublist (List.filter_sublist.map _), ?_, ?_⟩
  · exact ((h.built assetId interval).2.sublist (List.filter_sublist.map _)).imp (fun hlt => hlt.ne)
  · intro t ht t' ht' heq
    obtain ⟨row, hrow, rfl⟩ := List.mem_map.mp ht
    obtain ⟨candle, hcandle, rfl⟩ := List.mem_map.mp ht'
    have htest := (List.mem_filter.mp hrow).2
    rw [Bool.and_eq_true, Bool.not_eq_true'] at htest
    have hany : (r.closedBuilt o assetId interval nowMs).any (fun c => c.timestamp = row.timestamp) =
      true :=
      List.any_eq_true.mpr ⟨candle, hcandle, decide_eq_true heq.symm⟩
    rw [hany] at htest
    exact absurd htest.2.symm Bool.false_ne_true

/-- The places of the window's buckets. -/
theorem windowPlaces (n : ℕ) : (List.range n >>= fun i => pure (i : ℤ)) = (List.range n).map Nat.cast :=
  List.flatMap_pure_eq_map _ _

/-- The buckets of the window. -/
theorem mem_windowBuckets {bucket : ℤ} :
    (∃ i ∈ (List.range o.capacity).map Nat.cast, CandleRing.startTime o interval nowMs + i *
      interval.ms = bucket) ↔
      (interval.ms : ℤ) ∣ bucket ∧ CandleRing.inWindow o interval nowMs bucket = true := by
  have hpos : (0 : ℤ) < interval.ms := Int.natCast_pos.mpr interval.pos
  have hcap := o.capacity_pos
  obtain ⟨q, hq⟩ := @dvd_floorTo interval.ms nowMs
  unfold CandleRing.inWindow CandleRing.startTime
  rw [Bool.and_eq_true, decide_eq_true_eq, decide_eq_true_eq, hq]
  constructor
  · rintro ⟨place, hplace, rfl⟩
    obtain ⟨i, hi, rfl⟩ := List.mem_map.mp hplace
    have hlt := List.mem_range.mp hi
    refine ⟨⟨q - (o.capacity - 1) + i, by ring⟩, ?_, ?_⟩
    · nlinarith
    · have hi' : (i : ℤ) ≤ o.capacity - 1 := by omega
      nlinarith
  · rintro ⟨⟨k, rfl⟩, hle, hge⟩
    have hk1 : q - (o.capacity - 1) ≤ k := by
      by_contra hlt
      have hlt' : k + 1 ≤ q - (o.capacity - 1) := by omega
      nlinarith
    have hk2 : k ≤ q := by
      by_contra hlt
      have hlt' : q + 1 ≤ k := by omega
      nlinarith
    refine ⟨k - (q - (o.capacity - 1)), List.mem_map.mpr ⟨(k - (q - (o.capacity - 1))).toNat, ?_,
      ?_⟩, by ring⟩
    · exact List.mem_range.mpr (by omega)
    · exact Int.toNat_of_nonneg (by omega)

/-- **A read splits its window**: the closed buckets are those of the candles and the gaps, each once and in
ascending order, and a tick-built candle is the one of its bucket. -/
theorem read_partition (h : RingOk r) (assetId : ℕ) (interval : ScanInterval) (nowMs : ℚ) :
    ((r.read o assetId interval nowMs).candles.map Candle.timestamp).Pairwise (· < ·) ∧
      (r.read o assetId interval nowMs).gaps.Pairwise (· < ·) ∧
      (∀ bucket, (bucket ∈ (r.read o assetId interval nowMs).candles.map Candle.timestamp ∨
        bucket ∈ (r.read o assetId interval nowMs).gaps) ↔ ClosedBucket o r interval nowMs bucket) ∧
      (∀ bucket ∈ (r.read o assetId interval nowMs).gaps,
        bucket ∉ (r.read o assetId interval nowMs).candles.map Candle.timestamp) ∧
      ∀ candle ∈ r.built assetId interval, CandleRing.inWindow o interval nowMs candle.timestamp = true →
        r.isClosed o interval nowMs candle.timestamp = true →
          candle ∈ (r.read o assetId interval nowMs).candles := by
  have hpos : (0 : ℤ) < interval.ms := Int.natCast_pos.mpr interval.pos
  have hperm : (r.read o assetId interval nowMs).candles.Perm (unsorted o r assetId interval nowMs) :=
    List.mergeSort_perm _ _
  have hmemTs : ∀ bucket, bucket ∈ (r.read o assetId interval nowMs).candles.map Candle.timestamp ↔
      bucket ∈ (unsorted o r assetId interval nowMs).map Candle.timestamp :=
    fun bucket => (hperm.map Candle.timestamp).mem_iff
  have hgap : ∀ bucket, bucket ∈ (r.read o assetId interval nowMs).gaps ↔
      ClosedBucket o r interval nowMs bucket ∧ bucket ∉ (unsorted o r assetId interval nowMs).map
        Candle.timestamp := by
    intro bucket
    show bucket ∈ List.filter _ (List.map _ (List.range o.capacity >>= fun i => pure (i : ℤ))) ↔ _
    rw [windowPlaces, List.mem_filter, List.mem_map, mem_windowBuckets, Bool.and_eq_true, Bool.not_eq_true']
    have hany : (unsorted o r assetId interval nowMs).any (fun candle => candle.timestamp = bucket) =
      false ↔
        bucket ∉ (unsorted o r assetId interval nowMs).map Candle.timestamp := by
      rw [← Bool.not_eq_true, List.any_eq_true, List.mem_map]
      simp only [decide_eq_true_eq]
    unfold ClosedBucket
    constructor
    · rintro ⟨⟨hdvd, hin⟩, hclosed, hno⟩
      exact ⟨⟨hdvd, hin, hclosed⟩, hany.mp hno⟩
    · rintro ⟨⟨hdvd, hin, hclosed⟩, hno⟩
      exact ⟨⟨hdvd, hin⟩, hclosed, hany.mpr hno⟩
  refine ⟨?_, ?_, fun bucket => ⟨?_, fun hclosed => ?_⟩, fun bucket hb hmem => ?_, ?_⟩
  · have htrans : ∀ a b c : Candle, decide (a.timestamp ≤ b.timestamp) = true →
        decide (b.timestamp ≤ c.timestamp) = true → decide (a.timestamp ≤ c.timestamp) = true :=
      fun a b c hab hbc => decide_eq_true (le_trans (of_decide_eq_true hab) (of_decide_eq_true hbc))
    have htotal : ∀ a b : Candle, (decide (a.timestamp ≤ b.timestamp) || decide (b.timestamp ≤ a.timestamp)) = true := by
      intro a b
      rw [Bool.or_eq_true, decide_eq_true_iff, decide_eq_true_iff]
      exact le_total a.timestamp b.timestamp
    have hsorted : (r.read o assetId interval nowMs).candles.Pairwise
        (fun a b => decide (a.timestamp ≤ b.timestamp) = true) :=
      List.pairwise_mergeSort htrans htotal _
    have hnodup : ((r.read o assetId interval nowMs).candles.map Candle.timestamp).Nodup :=
      (hperm.map Candle.timestamp).nodup_iff.mpr h.unsorted_nodup
    have hle : ((r.read o assetId interval nowMs).candles.map Candle.timestamp).Pairwise (· ≤ ·) :=
      List.pairwise_map.mpr (hsorted.imp (fun hab => of_decide_eq_true hab))
    exact (hle.and hnodup).imp (fun hab => lt_of_le_of_ne hab.1 hab.2)
  · show (List.filter _ (List.map _ (List.range o.capacity >>= fun i => pure (i : ℤ)))).Pairwise (· < ·)
    rw [windowPlaces]
    refine List.Pairwise.filter _ (List.pairwise_map.mpr (List.pairwise_map.mpr
      (List.pairwise_lt_range.imp (fun hlt => ?_))))
    exact Int.add_lt_add_left (mul_lt_mul_of_pos_right (Int.ofNat_lt.mpr hlt) hpos) _
  · rintro (hcandle | hb)
    · obtain ⟨candle, hc, rfl⟩ := List.mem_map.mp ((hmemTs bucket).mp hcandle)
      obtain ⟨hsource, hin, hclosed⟩ := mem_unsorted hc
      refine ⟨?_, hin, hclosed⟩
      rcases hsource with hfilled | hbuilt
      · exact (h.filledRows assetId interval).1 candle hfilled
      · exact (h.built assetId interval).1 candle hbuilt
    · exact ((hgap bucket).mp hb).1
  · by_cases hmem : bucket ∈ (unsorted o r assetId interval nowMs).map Candle.timestamp
    · exact .inl ((hmemTs bucket).mpr hmem)
    · exact .inr ((hgap bucket).mpr ⟨hclosed, hmem⟩)
  · exact ((hgap bucket).mp hb).2 ((hmemTs bucket).mp hmem)
  · intro candle hbuilt hin hclosed
    refine (CandleRing.mem_read o).mpr (.inr (List.mem_filter.mpr ⟨hbuilt, ?_⟩))
    rw [hin, hclosed]
    rfl

end Read

/-! ## Where the filled rows come from -/

/-- The attempts in flight are in the log, the ring is right, and a filled row came with the answer of
an attempt of its pair, before the attempt's bound. -/
structure BackfillCarried (b : CandleBackfill) : Prop where
  ring : RingOk b.ring
  attempts : ∀ a ∈ b.attempts, .launched a ∈ b.log
  rows : ∀ assetId interval row, row ∈ b.ring.filledRows assetId interval → interval = scanInterval ∧
    ∃ a rows, .launched a ∈ b.log ∧ a.assetId = assetId ∧ .answered a.id rows ∈ b.log ∧ row ∈ rows ∧
      row.timestamp < a.closedAt

section Carried

variable {c : CandleBackfillConfig} {b b' : CandleBackfill}

/-- A row of a pair's filled rows stands under its bucket. -/
theorem mem_filledRows {r : CandleRing} {assetId : ℕ} {interval : ScanInterval} {row : Candle} :
    row ∈ r.filledRows assetId interval ↔ ∃ pair rows bucket, r.pairs.get? assetId = some pair ∧
      pair.filled.get? interval = some rows ∧ rows.get? bucket = some row := by
  unfold CandleRing.filledRows
  cases hpair : r.pairs.get? assetId with
  | none =>
    refine ⟨fun h => absurd h List.not_mem_nil, ?_⟩
    rintro ⟨pair, rows, bucket, hget, -⟩
    cases hget
  | some pair =>
    rw [Option.bind_some]
    cases hrows : pair.filled.get? interval with
    | none =>
      refine ⟨fun h => absurd h List.not_mem_nil, ?_⟩
      rintro ⟨pair', rows, bucket, hget, hfilled, -⟩
      cases hget
      rw [hrows] at hfilled
      cases hfilled
    | some rows =>
      constructor
      · intro h
        obtain ⟨e, he, rfl⟩ := List.mem_map.mp h
        exact ⟨pair, rows, e.1, rfl, hrows, OrderedMap.get?_eq_some.mpr he⟩
      · rintro ⟨pair', rows', bucket, hget, hfilled, hrow⟩
        cases hget
        rw [hrows] at hfilled
        cases hfilled
        exact List.mem_map.mpr ⟨(bucket, row), OrderedMap.get?_eq_some.mp hrow, rfl⟩

/-- The rows of a pair that keeps its filled ones are the ring's. -/
theorem filledRows_set {r r' : CandleRing} {assetId : ℕ} {pair : RingPair}
    (hpairs : r'.pairs = r.pairs.set assetId pair)
    (hfilled : pair.filled = (r.pairOf assetId).filled) {id : ℕ} {interval : ScanInterval} {row : Candle}
    (h : row ∈ r'.filledRows id interval) : row ∈ r.filledRows id interval := by
  obtain ⟨pair', rows, bucket, hget, hrows, hrow⟩ := mem_filledRows.mp h
  rw [hpairs, OrderedMap.get?_set] at hget
  split_ifs at hget with hk
  · subst hk
    cases hget
    rw [hfilled] at hrows
    unfold CandleRing.pairOf at hrows
    cases hpair : r.pairs.get? assetId with
    | none =>
      rw [hpair] at hrows
      cases hrows
    | some pair =>
      rw [hpair] at hrows
      exact mem_filledRows.mpr ⟨pair, rows, bucket, hpair, hrows, hrow⟩
  · exact mem_filledRows.mpr ⟨pair', rows, bucket, hget, hrows, hrow⟩

theorem filledRows_push {r : CandleRing} {o : CandleRingOptions} {assetId : ℕ} {digits : ℤ} {tick : Tick}
    {receivedAtMs : ℚ} {id : ℕ} {interval : ScanInterval} {row : Candle}
    (h : row ∈ (r.push o assetId digits tick receivedAtMs).filledRows id interval) :
    row ∈ r.filledRows id interval := by
  have hmarked : ∀ pair timestamp, (CandleRing.markHoles pair timestamp).filled = pair.filled := by
    intro pair timestamp
    unfold CandleRing.markHoles
    split_ifs <;> rfl
  have hbuilt : ∀ pair digits, (CandleRing.withBuilders o pair digits).filled = pair.filled := by
    intro pair digits
    unfold CandleRing.withBuilders
    split_ifs <;> rfl
  have haccepted : ∀ pair, pair.filled = (r.pairOf assetId).filled →
      row ∈ (r.acceptTick o assetId pair tick receivedAtMs).filledRows id interval → row ∈ r.filledRows
        id interval := by
    intro pair hpair hrow
    let marked := CandleRing.markHoles pair tick.timestamp
    exact @filledRows_set r _ assetId
      { marked with builders := marked.builders.mapVal (fun _ builder => builder.push tick receivedAtMs)
        } rfl
      ((hmarked pair tick.timestamp).trans hpair) _ _ _ hrow
  unfold CandleRing.push at h
  split at h
  · exact h
  · exact h
  · split_ifs at h
    · exact h
    · simp only at h
      split at h
      · exact haccepted _ (hbuilt _ _) h
      · split_ifs at h
        · exact filledRows_set rfl rfl h
        · exact haccepted _ rfl h

theorem filledRows_onDrop {r : CandleRing} {id : ℕ} {interval : ScanInterval} {row : Candle}
    (h : row ∈ r.onDrop.filledRows id interval) : row ∈ r.filledRows id interval := by
  obtain ⟨pair, rows, bucket, hget, hrows, hrow⟩ := mem_filledRows.mp h
  have hmap : (r.pairs.mapVal (fun _ pair => CandleRing.dropPair pair)).get? id = some pair := hget
  rw [OrderedMap.get?_mapVal] at hmap
  obtain ⟨pair', hpair', rfl⟩ := Option.map_eq_some_iff.mp hmap
  refine mem_filledRows.mpr ⟨pair', rows, bucket, hpair', ?_, hrow⟩
  unfold CandleRing.dropPair at hrows
  split_ifs at hrows
  · exact hrows
  · exact hrows

theorem filledRows_fill {r : CandleRing} {o : CandleRingOptions} {assetId : ℕ} {interval : ScanInterval}
    {rows : List Candle} {nowMs : ℚ} {id : ℕ} {interval' : ScanInterval} {row : Candle}
    (h : row ∈ (r.fill o assetId interval rows nowMs).filledRows id interval') :
    row ∈ r.filledRows id interval' ∨ (id = assetId ∧ interval' = interval ∧ row ∈ rows) := by
  obtain ⟨pair, held, bucket, hget, hheld, hrow⟩ := mem_filledRows.mp h
  by_cases hid : assetId = id
  · subst hid
    rcases get?_fill hget hheld hrow with ⟨before, hbefore, hold⟩ | ⟨hsame, hmem, -⟩
    · left
      unfold CandleRing.pairOf at hbefore
      cases hpair : r.pairs.get? assetId with
      | none =>
        rw [hpair] at hbefore
        cases hbefore
      | some pair =>
        rw [hpair] at hbefore
        exact mem_filledRows.mpr ⟨pair, before, bucket, hpair, hbefore, hold⟩
    · exact .inr ⟨rfl, hsame, hmem⟩
  · left
    unfold CandleRing.fill at hget
    simp only at hget
    rw [OrderedMap.get?_set, if_neg hid] at hget
    exact mem_filledRows.mpr ⟨pair, held, bucket, hget, hheld, hrow⟩

/-- More of the log, the ring untouched. -/
theorem BackfillCarried.logged (h : BackfillCarried b) (hring : b'.ring = b.ring)
    (hlog : ∃ es, b'.log = b.log ++ es) (hattempts : ∀ a ∈ b'.attempts, a ∈ b.attempts ∨
      .launched a ∈ b'.log) :
    BackfillCarried b' := by
  obtain ⟨es, hes⟩ := hlog
  have hmem : ∀ e ∈ b.log, e ∈ b'.log := fun e he => hes ▸ List.mem_append_left _ he
  refine ⟨hring ▸ h.ring, fun a ha => ?_, fun assetId interval row hrow => ?_⟩
  · rcases hattempts a ha with hold | hnew
    · exact hmem _ (h.attempts a hold)
    · exact hnew
  · rw [hring] at hrow
    obtain ⟨hinterval, a, rows, hlaunched, hpair, hanswered, hrows, hlt⟩ := h.rows assetId interval row hrow
    exact ⟨hinterval, a, rows, hmem _ hlaunched, hpair, hmem _ hanswered, hrows, hlt⟩

/-- A filled ring, the answer in the log. -/
theorem BackfillCarried.filled (h : BackfillCarried b) {a : BackfillAttempt} (ha : a ∈ b.attempts)
    {rows : List Candle}
    {now : ℚ} (hring : b'.ring = (b.filled c a rows now).ring)
      (hlog : b'.log = b.log ++ [.answered a.id rows])
    (hattempts : ∀ a' ∈ b'.attempts, a' ∈ b.attempts) : BackfillCarried b' := by
  have hmem : ∀ e ∈ b.log, e ∈ b'.log := fun e he => hlog ▸ List.mem_append_left _ he
  refine ⟨hring ▸ h.ring.fill _ _ _ _, fun a' ha' => hmem _ (h.attempts a' (hattempts a' ha')), ?_⟩
  intro assetId interval row hrow
  rw [hring] at hrow
  rcases filledRows_fill hrow with hold | ⟨rfl, rfl, hnew⟩
  · obtain ⟨hinterval, a', rows', hlaunched, hpair, hanswered, hrows, hlt⟩ :=
      h.rows assetId interval row hold
    exact ⟨hinterval, a', rows', hmem _ hlaunched, hpair, hmem _ hanswered, hrows, hlt⟩
  · obtain ⟨hdrop, hlt⟩ := List.mem_filter.mp hnew
    refine ⟨rfl, a, rows, hmem _ (h.attempts a ha), rfl, ?_, List.mem_of_mem_drop hdrop,
      of_decide_eq_true hlt⟩
    rw [hlog]
    exact List.mem_append_right _ List.mem_cons_self

/-- What the loop's parts do: the ring stays, the log grows by launches of a kind, and they are what is
new in flight. -/
structure LoopStep (ok : BackfillAttempt → Prop) (b b' : CandleBackfill) : Prop where
  ring : b'.ring = b.ring
  log : ∃ es, b'.log = b.log ++ es ∧ ∀ a, .launched a ∈ es → ok a
  attempts : ∀ a ∈ b'.attempts, a ∈ b.attempts ∨ .launched a ∈ b'.log

variable {ok : BackfillAttempt → Prop} {b'' : CandleBackfill}

theorem LoopStep.quiet (hring : b'.ring = b.ring) (hlog : ∃ es, b'.log = b.log ++ es ∧ ∀ a,
    .launched a ∉ es)
    (hattempts : b'.attempts = b.attempts) : LoopStep ok b b' := by
  obtain ⟨es, hes, hno⟩ := hlog
  exact ⟨hring, ⟨es, hes, fun a ha => absurd ha (hno a)⟩, fun a ha => .inl (hattempts ▸ ha)⟩

theorem LoopStep.same (hring : b'.ring = b.ring) (hlog : b'.log = b.log)
    (hattempts : b'.attempts = b.attempts) :
    LoopStep ok b b' :=
  LoopStep.quiet hring ⟨[], hlog.trans (List.append_nil _).symm, fun _ => List.not_mem_nil⟩ hattempts

theorem LoopStep.trans (h : LoopStep ok b b') (h' : LoopStep ok b' b'') : LoopStep ok b b'' := by
  obtain ⟨es, hes, hok⟩ := h.log
  obtain ⟨es', hes', hok'⟩ := h'.log
  refine ⟨h'.ring.trans h.ring, ⟨es ++ es', by rw [hes', hes, List.append_assoc], fun a ha => ?_⟩, fun a ha => ?_⟩
  · rcases List.mem_append.mp ha with hold | hnew
    · exact hok a hold
    · exact hok' a hnew
  · rcases h'.attempts a ha with hold | hnew
    · refine (h.attempts a hold).imp_right (fun hmem => ?_)
      rw [hes']
      exact List.mem_append_left _ hmem
    · exact .inr hnew

theorem loopStep_isDue (assetId : ℕ) (now : ℚ) : LoopStep ok b (b.isDue c assetId now).2 := by
  unfold CandleBackfill.isDue
  cases b.elements.get? assetId with
  | none => exact LoopStep.same rfl rfl rfl
  | some el =>
    simp only
    split_ifs
    · exact LoopStep.same rfl rfl rfl
    · refine LoopStep.quiet rfl ⟨[.noGaps assetId], rfl, fun a ha => ?_⟩ rfl
      cases List.mem_singleton.mp ha
    · exact LoopStep.same rfl rfl rfl
    · exact LoopStep.same rfl rfl rfl

theorem loopStep_foldl {step : CandleBackfill → ℕ → CandleBackfill}
    (hstep : ∀ b assetId, LoopStep ok b (step b assetId)) (ids : List ℕ) :
      LoopStep ok b (ids.foldl step b) := by
  induction ids generalizing b with
  | nil => exact LoopStep.same rfl rfl rfl
  | cons assetId rest ih => exact (hstep b assetId).trans ih

theorem loopStep_takeRequest (view : List BinaryPair) (assetId : ℕ) :
    LoopStep ok b (b.takeRequest view assetId) := by
  unfold CandleBackfill.takeRequest
  simp only
  split_ifs
  · split
    · exact LoopStep.same rfl rfl rfl
    · exact LoopStep.same rfl rfl rfl
  · refine LoopStep.quiet rfl ⟨[.left assetId], rfl, fun a ha => ?_⟩ rfl
    cases List.mem_singleton.mp ha

theorem loopStep_elementOf (assetId : ℕ) : LoopStep ok b (b.elementOf assetId) := by
  unfold CandleBackfill.elementOf
  split
  · exact LoopStep.same rfl rfl rfl
  · exact LoopStep.same rfl rfl rfl

theorem loopStep_readCatalog (read : Option CatalogRead) : LoopStep ok b (b.readCatalog read) := by
  unfold CandleBackfill.readCatalog
  cases read with
  | none => exact LoopStep.same rfl rfl rfl
  | some read =>
    simp only
    split_ifs
    · refine LoopStep.quiet rfl ⟨_, rfl, fun a ha => ?_⟩ rfl
      obtain ⟨e, -, he⟩ := List.mem_map.mp ha
      cases he
    · exact LoopStep.same rfl rfl rfl

theorem loopStep_dueOf (now : ℚ) (ids : List ℕ) : LoopStep ok b (CandleBackfill.dueOf c now ids b).2 := by
  induction ids generalizing b with
  | nil => exact LoopStep.same rfl rfl rfl
  | cons assetId rest ih => exact (loopStep_isDue assetId now).trans ih

/-- A scan launches nothing. -/
theorem loopStep_scan (read : Option CatalogRead) (streaming : Bool) (now : ℚ) :
    LoopStep ok b (b.scan c read streaming now) := by
  unfold CandleBackfill.scan
  by_cases hstopped : b.stopped = true
  · rw [if_pos hstopped]
    exact LoopStep.same rfl rfl rfl
  · rw [if_neg hstopped]
    have hread := @loopStep_readCatalog b ok read
    simp only
    cases (b.readCatalog read).view with
    | none => exact hread
    | some view =>
      have htaken := @loopStep_foldl (b.readCatalog read) ok (fun b assetId => b.takeRequest view assetId)
        (fun b assetId => loopStep_takeRequest view assetId) (b.readCatalog read).requests
      have hoffered := fun b' => @loopStep_foldl b' ok CandleBackfill.elementOf
        (fun b assetId => loopStep_elementOf assetId)
      have hdue := fun b' ids => @loopStep_dueOf c b' ok now ids
      exact ((hread.trans htaken).trans ((hoffered _ _).trans (hdue _ _))).trans (LoopStep.same rfl rfl rfl)

/-- **The attempts a dispatch launches** have its clock reading and the ring's bound at it. -/
def BuiltAt (c : CandleBackfillConfig) (r : CandleRing) (now : ℚ) (a : BackfillAttempt) : Prop :=
  a.builtAt = now ∧ a.ringClosed = r.closedUntil c.ring scanInterval now

theorem loopStep_launch (assetId : ℕ) (now : ℚ) :
    LoopStep (BuiltAt c b.ring now) b (b.launch c assetId now) := by
  unfold CandleBackfill.launch
  cases b.elements.get? assetId with
  | none => exact LoopStep.same rfl rfl rfl
  | some el =>
    refine ⟨rfl, ⟨[.launched (b.attemptOf c assetId el now)], rfl, fun a ha => ?_⟩, fun a ha => ?_⟩
    · cases List.mem_singleton.mp ha
      exact ⟨rfl, rfl⟩
    · rcases List.mem_append.mp ha with hold | hnew
      · exact .inl hold
      · rw [List.mem_singleton.mp hnew]
        exact .inr (List.mem_append_right _ List.mem_cons_self)

theorem loopStep_dispatchLoop (r : CandleRing) (now : ℚ) (queue : List ℕ) :
    ∀ (tokens : ℕ) {b : CandleBackfill},
    b.ring = r → LoopStep (BuiltAt c r now) b (CandleBackfill.dispatchLoop c now tokens queue b) := by
  induction queue with
  | nil => exact fun _ _ _ => LoopStep.same rfl rfl rfl
  | cons assetId rest ih =>
    intro tokens b hring
    have hdue := @loopStep_isDue c b (BuiltAt c r now) assetId now
    unfold CandleBackfill.dispatchLoop
    split_ifs
    · exact LoopStep.same rfl rfl rfl
    · generalize b.isDue c assetId now = found at hdue
      obtain ⟨due, b'⟩ := found
      have hring' : b'.ring = r := hdue.ring.trans hring
      cases due with
      | false => exact hdue.trans (ih tokens hring')
      | true =>
        cases tokens with
        | zero => exact hdue.trans (LoopStep.same rfl rfl rfl)
        | succ tokens =>
          have hlaunch := @loopStep_launch c b' assetId now
          rw [hring'] at hlaunch
          exact hdue.trans (hlaunch.trans (ih tokens (hlaunch.ring.trans hring')))

theorem loopStep_dispatch (tokens : ℕ) (now : ℚ) : LoopStep (BuiltAt c b.ring now) b
    (b.dispatch c tokens now) := by
  unfold CandleBackfill.dispatch
  split_ifs
  · exact LoopStep.same rfl rfl rfl
  · exact LoopStep.same rfl rfl rfl
  · exact loopStep_dispatchLoop b.ring now b.queue tokens rfl

theorem BackfillCarried.looped (h : BackfillCarried b) (hstep : LoopStep ok b b') : BackfillCarried b' := by
  obtain ⟨es, hes, -⟩ := hstep.log
  exact h.logged hstep.ring ⟨es, hes⟩ hstep.attempts

/-- A GET out of flight. -/
theorem land_log (a : BackfillAttempt) (e : BackfillEntry) (f : BackfillElement → BackfillElement) :
    (b.land a e f).ring = b.ring ∧ (b.land a e f).log = b.log ++ [e] ∧ ∀ a' ∈ (b.land a e f).attempts,
      a' ∈ b.attempts :=
  ⟨rfl, rfl, fun _ ha' => List.mem_of_mem_filter ha'⟩

theorem failed_log (a : BackfillAttempt) (now : ℚ) : (b.failed c a now).ring = b.ring ∧
    (∃ e, (b.failed c a now).log = b.log ++ [e] ∧ ∀ a', e ≠ .launched a') ∧
      ∀ a' ∈ (b.failed c a now).attempts, a' ∈ b.attempts := by
  unfold CandleBackfill.failed
  simp only
  split_ifs
  · refine ⟨rfl, ⟨.failed a.id, rfl, fun a' heq => ?_⟩, fun _ ha' => List.mem_of_mem_filter ha'⟩
    cases heq
  · refine ⟨rfl, ⟨.gaveUp a.id, rfl, fun a' heq => ?_⟩, fun _ ha' => List.mem_of_mem_filter ha'⟩
    cases heq

/-- **An answer** launches nothing, and fills the ring or leaves it. -/
theorem answered_log (h : BackfillCarried b) (id : ℕ) (answer : ChartAnswer) (now : ℚ) :
    BackfillCarried (b.answered c id answer now) ∧
      ∃ es, (b.answered c id answer now).log = b.log ++ es ∧ ∀ a, .launched a ∉ es := by
  have hone : ∀ e : BackfillEntry, (∀ a', e ≠ .launched a') → ∀ a', BackfillEntry.launched a' ∉ [e] :=
    fun e he a' hmem => he a' (List.mem_singleton.mp hmem).symm
  unfold CandleBackfill.answered
  cases hfind : b.attempts.find? (fun a => a.id = id) with
  | none => exact ⟨h, [], (List.append_nil _).symm, fun _ => List.not_mem_nil⟩
  | some a =>
    have ha := List.mem_of_find?_eq_some hfind
    have hland : ∀ (e : BackfillEntry) f, BackfillCarried (b.land a e f) :=
      fun e f => h.logged rfl ⟨[e], rfl⟩ (fun a' ha' => .inl (List.mem_of_mem_filter ha'))
    have hfailed : BackfillCarried (b.failed c a now) ∧
        ∃ es, (b.failed c a now).log = b.log ++ es ∧ ∀ a', .launched a' ∉ es := by
      obtain ⟨hring, ⟨e, hlog, he⟩, hattempts⟩ := @failed_log c b a now
      exact ⟨h.logged hring ⟨[e], hlog⟩ (fun a' ha' => .inl (hattempts a' ha')), [e], hlog, hone e he⟩
    simp only
    split_ifs
    · refine ⟨hland _ _, [.aborted a.id], rfl, hone _ (fun a' heq => ?_)⟩
      cases heq
    · cases answer with
      | rateLimited =>
        have hlimited := hland (.limited a.id) (CandleBackfill.keepRequest a.served)
        refine ⟨⟨hlimited.ring, hlimited.attempts, hlimited.rows⟩, [.limited a.id], rfl,
          hone _ (fun a' heq => ?_)⟩
        cases heq
      | refused => exact hfailed
      | threw => exact hfailed
      | rows rows =>
        refine ⟨?_, [.answered a.id rows], rfl, hone _ (fun a' heq => ?_)⟩
        · exact h.filled ha rfl rfl (fun a' ha' => List.mem_of_mem_filter ha')
        · cases heq

/-- A fill leaves the tick-built candles. -/
theorem built_fill {r : CandleRing} {o : CandleRingOptions} {assetId : ℕ} {interval : ScanInterval}
    {rows : List Candle}
    {nowMs : ℚ} (id : ℕ) (interval' : ScanInterval) :
    (r.fill o assetId interval rows nowMs).built id interval' = r.built id interval' := by
  unfold CandleRing.fill CandleRing.built
  simp only
  rw [OrderedMap.get?_set]
  split_ifs with hid
  · subst hid
    unfold CandleRing.pairOf
    cases r.pairs.get? assetId with
    | none => rfl
    | some pair => rfl
  · rfl

/-- An answer leaves the tick-built candles. -/
theorem answered_built (id : ℕ) (answer : ChartAnswer) (now : ℚ) (assetId : ℕ) (interval : ScanInterval) :
    (b.answered c id answer now).ring.built assetId interval = b.ring.built assetId interval := by
  unfold CandleBackfill.answered
  cases b.attempts.find? (fun a => a.id = id) with
  | none => rfl
  | some a =>
    have hfailed := (@failed_log c b a now).1
    simp only
    split_ifs
    · rfl
    · cases answer with
      | rateLimited => rfl
      | refused => exact congrArg (fun r => CandleRing.built r assetId interval) hfailed
      | threw => exact congrArg (fun r => CandleRing.built r assetId interval) hfailed
      | rows rows => exact built_fill assetId interval

/-- **Every callback**: what is carried stays so, and only a dispatch launches. -/
theorem BackfillCarried.act (h : BackfillCarried b) (x : BackfillAct) : BackfillCarried (b.act c x) ∧
    ∀ a, .launched a ∈ (b.act c x).log → .launched a ∈ b.log ∨ ∃ tokens now, x = .dispatch tokens now ∧
      BuiltAt c b.ring now a := by
  have hquiet : ∀ {b' : CandleBackfill}, (∃ es, b'.log = b.log ++ es ∧ ∀ a, .launched a ∉ es) →
      ∀ a, .launched a ∈ b'.log → .launched a ∈ b.log := by
    rintro b' ⟨es, hes, hno⟩ a ha
    rw [hes] at ha
    exact (List.mem_append.mp ha).resolve_right (hno a)
  cases x with
  | push assetId digits tick receivedAtMs =>
    refine ⟨⟨h.ring.push _ _ _ _, h.attempts, fun id interval row hrow => ?_⟩, fun a ha => .inl ha⟩
    exact h.rows id interval row (filledRows_push hrow)
  | drop =>
    refine ⟨⟨h.ring.onDrop, h.attempts, fun id interval row hrow => ?_⟩, fun a ha => .inl ha⟩
    exact h.rows id interval row (filledRows_onDrop hrow)
  | request assetId =>
    have hlog : ∃ es, (b.request c assetId).log = b.log ++ es ∧ ∀ a, .launched a ∉ es := by
      unfold CandleBackfill.request
      split_ifs
      · refine ⟨[.requested assetId], rfl, fun a ha => ?_⟩
        cases List.mem_singleton.mp ha
      · exact ⟨[], (List.append_nil _).symm, fun _ => List.not_mem_nil⟩
      · refine ⟨[.requested assetId], rfl, fun a ha => ?_⟩
        cases List.mem_singleton.mp ha
    have hring : (b.request c assetId).ring = b.ring ∧ (b.request c assetId).attempts = b.attempts := by
      unfold CandleBackfill.request
      split_ifs <;> exact ⟨rfl, rfl⟩
    exact ⟨h.looped (@LoopStep.quiet _ _ (fun _ => True) hring.1 hlog hring.2), fun a ha =>
      .inl (hquiet hlog a ha)⟩
  | scan read streaming now =>
    have hstep := @loopStep_scan c b (fun _ => False) read streaming now
    refine ⟨h.looped hstep, fun a ha => .inl ?_⟩
    obtain ⟨es, hes, hno⟩ := hstep.log
    exact hquiet ⟨es, hes, fun a ha => hno a ha⟩ a ha
  | dispatch tokens now =>
    have hstep := @loopStep_dispatch c b tokens now
    refine ⟨h.looped hstep, fun a ha => ?_⟩
    obtain ⟨es, hes, hbuilt⟩ := hstep.log
    have hmem : .launched a ∈ b.log ++ es := hes ▸ ha
    rcases List.mem_append.mp hmem with hold | hnew
    · exact .inl hold
    · exact .inr ⟨tokens, now, rfl, hbuilt a hnew⟩
  | answered id answer now =>
    obtain ⟨hcarried, hlog⟩ := @answered_log c b h id answer now
    exact ⟨hcarried, fun a ha => .inl (hquiet hlog a ha)⟩
  | stop =>
    have hlog : ∃ es, b.stop.log = b.log ++ es ∧ ∀ a, .launched a ∉ es := by
      refine ⟨[.stopped], rfl, fun a ha => ?_⟩
      cases List.mem_singleton.mp ha
    exact ⟨h.looped (@LoopStep.quiet _ _ (fun _ => True) rfl hlog rfl), fun a ha => .inl (hquiet hlog a ha)⟩

end Carried

theorem BackfillCarried.run (c : CandleBackfillConfig) (as : List BackfillAct) :
    BackfillCarried (Lib.run (CandleBackfill.act c) {} as) := by
  refine @run_induction _ _ (CandleBackfill.act c) BackfillCarried {} ?_ (fun b x h =>
    (BackfillCarried.act h x).1) as
  refine ⟨fun assetId pair h => ?_, fun a ha => absurd ha List.not_mem_nil,
    fun assetId interval row h => ?_⟩
  · cases h
  · exact absurd h List.not_mem_nil

/-- **A launch** is a dispatch's, whose clock reading and ring it has. -/
theorem launched_built (c : CandleBackfillConfig) (as : List BackfillAct) (a : BackfillAttempt)
    (h : .launched a ∈ (run (CandleBackfill.act c) {} as).log) :
    ∃ before tokens now after, as = before ++ .dispatch tokens now :: after ∧
      .launched a ∉ (run (CandleBackfill.act c) {} before).log ∧
      .launched a ∈ (run (CandleBackfill.act c) {} (before ++ [.dispatch tokens now])).log ∧
      BuiltAt c (run (CandleBackfill.act c) {} before).ring now a := by
  induction as using List.reverseRecOn with
  | nil => exact absurd h List.not_mem_nil
  | append_singleton as x ih =>
    by_cases hold : .launched a ∈ (run (CandleBackfill.act c) {} as).log
    · obtain ⟨before, tokens, now, after, rfl, hrest⟩ := ih hold
      exact ⟨before, tokens, now, after ++ [x], by rw [List.append_assoc, List.cons_append], hrest⟩
    · have hnew := h
      rw [run_snoc] at hnew
      rcases (BackfillCarried.act (BackfillCarried.run c as) x).2 a hnew with hbefore | ⟨tokens, now,
        rfl, hbuilt⟩
      · exact absurd hbefore hold
      · exact ⟨as, tokens, now, [], rfl, hold, h, hbuilt⟩

/-- The ring's bound is a bucket's end. -/
theorem dvd_closedUntil (o : CandleRingOptions) (r : CandleRing) (interval : ScanInterval) (nowMs : ℚ) :
    (interval.ms : ℤ) ∣ r.closedUntil o interval nowMs := by
  unfold CandleRing.closedUntil CandleRing.byWatermark CandleRing.byClock
  cases r.watermark with
  | none => exact dvd_floorTo _
  | some watermark =>
    show (interval.ms : ℤ) ∣ max (floorTo watermark interval.ms) (floorTo (nowMs - o.skewMarginMs)
      interval.ms)
    rcases max_choice (floorTo watermark interval.ms) (floorTo (nowMs - o.skewMarginMs)
      interval.ms) with heq | heq
    · rw [heq]
      exact dvd_floorTo _
    · rw [heq]
      exact dvd_floorTo _

/-- **The candle window**, in every run of the ring with its backfill and at every read: the closed
buckets of the window are the candles' and the gaps, each once and ascending; a tick-built closed candle
is in the window, and an answer of the backfill leaves the tick-built ones; and a filled row came with
the answer of a GET of its pair that was built when the ring's own rule had closed its bucket. -/
theorem candle_window (c : CandleBackfillConfig) (as : List BackfillAct) (assetId : ℕ)
    (interval : ScanInterval)
    (nowMs : ℚ) :
    let b := run (CandleBackfill.act c) {} as
    let w := b.ring.read c.ring assetId interval nowMs
    (w.candles.map Candle.timestamp).Pairwise (· < ·) ∧ w.gaps.Pairwise (· < ·) ∧
      (∀ bucket, (bucket ∈ w.candles.map Candle.timestamp ∨ bucket ∈ w.gaps) ↔
        ClosedBucket c.ring b.ring interval nowMs bucket) ∧
      (∀ bucket ∈ w.gaps, bucket ∉ w.candles.map Candle.timestamp) ∧
      (∀ candle ∈ b.ring.built assetId interval, CandleRing.inWindow c.ring interval nowMs
        candle.timestamp = true →
        b.ring.isClosed c.ring interval nowMs candle.timestamp = true → candle ∈ w.candles) ∧
      (∀ id answer now, (b.act c (.answered id answer now)).ring.built assetId interval =
        b.ring.built assetId interval) ∧
      ∀ row ∈ b.ring.filledRows assetId interval, interval = scanInterval ∧
        ∃ before tokens now after a rows, as = before ++ .dispatch tokens now :: after ∧
          .launched a ∉ (run (CandleBackfill.act c) {} before).log ∧
          .launched a ∈ (run (CandleBackfill.act c) {} (before ++ [.dispatch tokens now])).log ∧
          a.assetId = assetId ∧ .answered a.id rows ∈ b.log ∧ row ∈ rows ∧
          (run (CandleBackfill.act c) {} before).ring.isClosed c.ring scanInterval now row.timestamp =
            true := by
  intro b w
  have hcarried := BackfillCarried.run c as
  obtain ⟨hcandles, hgaps, hsplit, hdisjoint, hbuilt⟩ := @read_partition c.ring b.ring hcarried.ring
    assetId interval nowMs
  refine ⟨hcandles, hgaps, hsplit, hdisjoint, hbuilt, ?_, ?_⟩
  · exact fun id answer now => answered_built id answer now assetId interval
  · intro row hrow
    obtain ⟨rfl, a, rows, hlaunched, hpair, hanswered, hmem, hlt⟩ := hcarried.rows assetId interval row hrow
    obtain ⟨before, tokens, now, after, hsplit', hnot, hhere, hat, hclosed⟩ :=
      launched_built c as a hlaunched
    refine ⟨rfl, before, tokens, now, after, a, rows, hsplit', hnot, hhere, hpair, hanswered, hmem,
      decide_eq_true ?_⟩
    have hless : row.timestamp < a.ringClosed := lt_of_lt_of_le hlt (min_le_right _ _)
    rw [hclosed] at hless
    have hdvd := Int.dvd_sub (dvd_closedUntil c.ring (run (CandleBackfill.act c) {} before).ring
      scanInterval now)
      ((hcarried.ring.filledRows assetId scanInterval).1 row hrow)
    have hstep := Int.le_of_dvd (sub_pos.mpr hless) hdvd
    omega

def threeBucketConfig : CandleBackfillConfig :=
  { oneBucketConfig with ring := ⟨3, 0, [scanInterval], Nat.succ_pos 2, Rat.le_refl⟩ }

/-- A tick, a tick of another pair that closes two buckets, and the answer of the GET for the one that is
empty. -/
def filledRun : List BackfillAct :=
  [.push 7 5 ⟨2, 7000, by norm_num⟩ 7000, .push 8 5 ⟨3, 15000, by norm_num⟩ 15000, .request 7,
    .scan (some ⟨true, [(⟨7, [], 5, 60, 0⟩, 5)]⟩) true 15600, .dispatch 1 15600,
    .answered 0 (.rows [⟨5000, 1, 1, 1, 1⟩, ⟨10000, 4, 4, 4, 4⟩]) 15700]

/-- The bucket of the tick is its candle, and the next one the row that its GET came with. -/
theorem candle_window_filled :
    let b := run (CandleBackfill.act threeBucketConfig) {} filledRun
    (⟨5000, 2, 2, 2, 2⟩ : Candle) ∈ (b.ring.read threeBucketConfig.ring 7 scanInterval 15700).candles ∧
      b.ring.filledRows 7 scanInterval = [⟨10000, 4, 4, 4, 4⟩] ∧
      ∃ before tokens now after a rows, filledRun = before ++ .dispatch tokens now :: after ∧
        .launched a ∈ (run (CandleBackfill.act threeBucketConfig) {} (before ++ [.dispatch tokens now])).log ∧
        a.assetId = 7 ∧ .answered a.id rows ∈ b.log ∧ ⟨10000, 4, 4, 4, 4⟩ ∈ rows ∧
        (run (CandleBackfill.act threeBucketConfig) {} before).ring.isClosed threeBucketConfig.ring scanInterval
          now 10000 = true := by
  intro b
  obtain ⟨-, -, -, -, hbuilt, -, hfilled⟩ := candle_window threeBucketConfig filledRun 7 scanInterval 15700
  have hrows : b.ring.filledRows 7 scanInterval = [⟨10000, 4, 4, 4, 4⟩] := by decide +kernel
  obtain ⟨-, before, tokens, now, after, a, rows, hrun, -, hlaunched, hpair, hanswered, hrow, hclosed⟩ :=
    hfilled ⟨10000, 4, 4, 4, 4⟩ (by rw [hrows]; exact List.mem_singleton_self _)
  exact ⟨hbuilt ⟨5000, 2, 2, 2, 2⟩ (by decide +kernel) (by decide +kernel) (by decide +kernel), hrows, before,
    tokens, now, after, a, rows, hrun, hlaunched, hpair, hanswered, hrow, hclosed⟩

end Binarius
