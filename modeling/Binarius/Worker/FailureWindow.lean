import Mathlib.Tactic
import Binarius.Lib.OrderedMap
import Binarius.Lib.Runs

/-!
# Worker.FailureWindow — the circuit breaker's window of events (trading-worker: circuit-breaker/window.ts)

Keys in the order of their latest events; what is out of the window goes from the front, at every call.
Moments and the window's length are JavaScript numbers, here rationals.

* `Holds`: the window after a history has the latest event of every key that may still count, in order.
* `act_holds`, `run_holds`: **every call keeps it**, at moments that do not decrease.
* `stats_eq_reference`: **a read is the count of the keys whose latest event is in the window**.
-/

namespace Binarius

open Lib

structure FailureEvent where
  failed : Bool
  atMs : ℚ
  deriving DecidableEq

structure WindowStats where
  failures : ℕ
  total : ℕ
  deriving DecidableEq

namespace FailureWindow

/-- `latest` of a window: insertion order is event order. -/
abbrev Latest := OrderedMap String FailureEvent

/-- The loop of `prune` over the entries: it stops at the first that is inside. -/
def pruneFrom (windowMs atMs : ℚ) : List (String × FailureEvent) → Latest → Latest
  | [], latest => latest
  | (key, event) :: entries, latest =>
    if event.atMs > atMs - windowMs then latest else pruneFrom windowMs atMs entries (latest.erase key)

def prune (windowMs atMs : ℚ) (latest : Latest) : Latest := pruneFrom windowMs atMs latest.entries latest

/-- A key re-recorded is moved to the end. -/
def record (windowMs : ℚ) (key : String) (failed : Bool) (atMs : ℚ) (latest : Latest) : Latest :=
  prune windowMs atMs ((latest.erase key).set key { failed, atMs })

def stats (windowMs atMs : ℚ) (latest : Latest) : Latest × WindowStats :=
  let pruned := prune windowMs atMs latest
  let failures := pruned.entries.foldl (fun failures e => if e.2.failed then failures + 1 else failures) 0
  (pruned, { failures, total := pruned.entries.length })

def clear (_ : Latest) : Latest := OrderedMap.empty

/-- The calls of a window. -/
inductive Act
  | record (key : String) (failed : Bool) (atMs : ℚ)
  | stats (atMs : ℚ)
  | clear

def Act.time : Act → Option ℚ
  | .record _ _ atMs => some atMs
  | .stats atMs => some atMs
  | .clear => none

def act (windowMs : ℚ) (latest : Latest) : Act → Latest
  | .record key failed atMs => record windowMs key failed atMs latest
  | .stats atMs => (stats windowMs atMs latest).1
  | .clear => clear latest

/-- The moments of the calls do not decrease. -/
def NonDecreasing (acts : List Act) : Prop := (acts.filterMap Act.time).Pairwise (· ≤ ·)

/-! ## The reference -/

/-- The events recorded since the last clear, in order. -/
def historyOf (acts : List Act) : List (String × FailureEvent) :=
  acts.foldl (fun history a => match a with
    | .record key failed atMs => history ++ [(key, { failed, atMs })]
    | .stats _ => history
    | .clear => []) []

/-- A key's latest event. -/
def latestOf (history : List (String × FailureEvent)) (key : String) : Option FailureEvent :=
  (history.reverse.find? (fun e => e.1 = key)).map Prod.snd

/-- The event is in `(t - window, t]`. -/
def InWindow (windowMs t : ℚ) (event : FailureEvent) : Prop := t - windowMs < event.atMs ∧ event.atMs ≤ t

instance (windowMs t : ℚ) (event : FailureEvent) : Decidable (InWindow windowMs t event) :=
  inferInstanceAs (Decidable (_ ∧ _))

/-- The distinct keys whose latest event is in the window, each with that event. -/
def counted (windowMs t : ℚ) (history : List (String × FailureEvent)) : List (String × FailureEvent) :=
  (history.map Prod.fst).dedup.filterMap fun key =>
    ((latestOf history key).filter fun event => decide (InWindow windowMs t event)).map fun event => (key, event)

/-- What a read should answer. -/
def reference (windowMs t : ℚ) (history : List (String × FailureEvent)) : WindowStats where
  failures := (counted windowMs t history).countP (fun e => e.2.failed)
  total := (counted windowMs t history).length

/-! ## The loop -/

theorem pruneFrom_entries (windowMs atMs : ℚ) {entries : List (String × FailureEvent)} {latest : Latest}
    (h : latest.entries = entries) :
    (pruneFrom windowMs atMs entries latest).entries =
      entries.dropWhile (fun e => decide (e.2.atMs ≤ atMs - windowMs)) := by
  induction entries generalizing latest with
  | nil => exact h
  | cons e entries ih =>
    obtain ⟨key, event⟩ := e
    unfold pruneFrom
    by_cases hin : event.atMs > atMs - windowMs
    · rw [if_pos hin, h, List.dropWhile_cons_of_neg (by simpa using hin)]
    · rw [if_neg hin, List.dropWhile_cons_of_pos (by simpa using hin)]
      exact ih (OrderedMap.entries_erase_head h)

/-- What holds of a window's map after a history, the clock being at the last call. -/
structure Holds (windowMs clock : ℚ) (history : List (String × FailureEvent)) (latest : Latest) : Prop where
  ordered : latest.entries.Pairwise (fun e e' => e.2.atMs ≤ e'.2.atMs)
  past : ∀ key event, latestOf history key = some event → event.atMs ≤ clock
  kept : ∀ key event, latest.get? key = some event → latestOf history key = some event
  dropped : ∀ key event, latestOf history key = some event → latest.get? key = none →
    event.atMs ≤ clock - windowMs

theorem latestOf_snoc (history : List (String × FailureEvent)) (key : String) (event : FailureEvent)
    (key' : String) :
    latestOf (history ++ [(key, event)]) key' = if key = key' then some event else latestOf history key' := by
  unfold latestOf
  rw [List.reverse_append, List.reverse_singleton, List.singleton_append, List.find?_cons]
  by_cases hkey : key = key'
  · simp [hkey]
  · simp [hkey]

/-- Of an ordered list what is dropped from the front is all that is out. -/
theorem dropWhile_eq_filter {entries : List (String × FailureEvent)} {bound : ℚ}
    (h : entries.Pairwise (fun e e' => e.2.atMs ≤ e'.2.atMs)) :
    entries.dropWhile (fun e => decide (e.2.atMs ≤ bound)) = entries.filter (fun e => decide (bound < e.2.atMs)) := by
  induction entries with
  | nil => rfl
  | cons e entries ih =>
    obtain ⟨hhead, htail⟩ := List.pairwise_cons.mp h
    by_cases hout : e.2.atMs ≤ bound
    · rw [List.dropWhile_cons_of_pos (by simpa using hout), List.filter_cons_of_neg (by simpa using hout), ih htail]
    · rw [List.dropWhile_cons_of_neg (by simpa using hout), eq_comm, List.filter_eq_self]
      intro e' he'
      rw [decide_eq_true_eq]
      rcases List.mem_cons.mp he' with rfl | hmem
      · exact not_le.mp hout
      · exact (not_le.mp hout).trans_le (hhead e' hmem)

variable {windowMs clock t : ℚ} {history : List (String × FailureEvent)} {latest : Latest}

/-- A pruned map has the entries inside the window. -/
theorem Holds.get?_prune (h : Holds windowMs clock history latest) {key : String} {event : FailureEvent} :
    (prune windowMs t latest).get? key = some event ↔
      latest.get? key = some event ∧ t - windowMs < event.atMs := by
  unfold prune
  rw [OrderedMap.get?_eq_some, pruneFrom_entries windowMs t rfl, dropWhile_eq_filter h.ordered,
    List.mem_filter, decide_eq_true_eq, OrderedMap.get?_eq_some]

/-- Pruning at a later moment keeps the rest. -/
theorem Holds.prune (h : Holds windowMs clock history latest) (ht : clock ≤ t) :
    Holds windowMs t history (prune windowMs t latest) := by
  refine ⟨?_, fun key event hlatest => (h.past key event hlatest).trans ht, ?_, ?_⟩
  · unfold FailureWindow.prune
    rw [pruneFrom_entries windowMs t rfl]
    exact h.ordered.sublist (List.dropWhile_sublist _)
  · intro key event hget
    exact h.kept key event (h.get?_prune.mp hget).1
  · intro key event hlatest hnone
    by_contra hin
    cases hget : latest.get? key with
    | none =>
      have hout := h.dropped key event hlatest hget
      linarith
    | some event' =>
      have hsame := (h.kept key event' hget).symm.trans hlatest
      rw [Option.some.inj hsame] at hget
      have hkept := h.get?_prune.mpr ⟨hget, not_le.mp hin⟩
      rw [hkept] at hnone
      cases hnone

/-- A recorded key goes to the end with its new event. -/
theorem Holds.record (h : Holds windowMs clock history latest) (ht : clock ≤ t) (key : String) (failed : Bool) :
    Holds windowMs t (history ++ [(key, ⟨failed, t⟩)]) (record windowMs key failed t latest) := by
  have hnone : (latest.erase key).get? key = none := by rw [OrderedMap.get?_erase, if_pos rfl]
  have hset : Holds windowMs t (history ++ [(key, ⟨failed, t⟩)]) ((latest.erase key).set key ⟨failed, t⟩) := by
    refine ⟨?_, ?_, ?_, ?_⟩
    · rw [OrderedMap.entries_set_of_none hnone, List.pairwise_append]
      refine ⟨h.ordered.sublist List.filter_sublist, List.pairwise_singleton _ _, ?_⟩
      intro e he e' he'
      rw [List.mem_singleton.mp he']
      have hget : latest.get? e.1 = some e.2 := OrderedMap.get?_eq_some.mpr (List.mem_of_mem_filter he)
      exact (h.past e.1 e.2 (h.kept e.1 e.2 hget)).trans ht
    · intro key' event hlatest
      rw [latestOf_snoc] at hlatest
      split_ifs at hlatest with hkey
      · rw [← Option.some.inj hlatest]
      · exact (h.past key' event hlatest).trans ht
    · intro key' event hget
      rw [OrderedMap.get?_set, OrderedMap.get?_erase] at hget
      rw [latestOf_snoc]
      by_cases hkey : key = key'
      · rw [if_pos hkey] at hget ⊢
        exact hget
      · rw [if_neg hkey, if_neg hkey] at hget
        rw [if_neg hkey]
        exact h.kept key' event hget
    · intro key' event hlatest hget
      rw [OrderedMap.get?_set, OrderedMap.get?_erase] at hget
      rw [latestOf_snoc] at hlatest
      by_cases hkey : key = key'
      · rw [if_pos hkey] at hget
        cases hget
      · rw [if_neg hkey, if_neg hkey] at hget
        rw [if_neg hkey] at hlatest
        exact (h.dropped key' event hlatest hget).trans (by linarith)
  exact hset.prune (le_refl t)

theorem holds_nil (windowMs clock : ℚ) : Holds windowMs clock [] OrderedMap.empty where
  ordered := List.Pairwise.nil
  past _ _ h := by cases h
  kept _ _ h := by cases h
  dropped _ _ h := by cases h

/-! ## Runs -/

theorem historyOf_snoc (acts : List Act) (a : Act) :
    historyOf (acts ++ [a]) = match a with
      | .record key failed atMs => historyOf acts ++ [(key, { failed, atMs })]
      | .stats _ => historyOf acts
      | .clear => [] := by
  unfold historyOf
  rw [List.foldl_append]
  rfl

/-- **After every run of calls the window holds what may still count.** -/
theorem run_holds (windowMs : ℚ) {acts : List Act} (h : NonDecreasing acts) :
    ∀ t, (∀ time ∈ acts.filterMap Act.time, time ≤ t) →
      ∃ clock ≤ t, Holds windowMs clock (historyOf acts) (run (act windowMs) OrderedMap.empty acts) := by
  induction acts using List.reverseRecOn with
  | nil => exact fun t _ => ⟨t, le_refl t, holds_nil windowMs t⟩
  | append_singleton acts a ih =>
    intro t ht
    unfold NonDecreasing at h
    rw [List.filterMap_append, List.pairwise_append] at h
    obtain ⟨hbefore, -, hlast⟩ := h
    rw [historyOf_snoc, run_snoc]
    have hmem : ∀ time, a.time = some time → time ∈ (acts ++ [a]).filterMap Act.time := by
      intro time htime
      rw [List.filterMap_append]
      exact List.mem_append_right _ (by simp [htime])
    have hbound : ∀ time, a.time = some time → ∀ time' ∈ acts.filterMap Act.time, time' ≤ time :=
      fun time htime time' hmem' => hlast time' hmem' time (by simp [htime])
    cases a with
    | record key failed atMs =>
      obtain ⟨clock, hclock, hholds⟩ := ih hbefore atMs (hbound atMs rfl)
      exact ⟨atMs, ht atMs (hmem atMs rfl), hholds.record hclock key failed⟩
    | stats atMs =>
      obtain ⟨clock, hclock, hholds⟩ := ih hbefore atMs (hbound atMs rfl)
      exact ⟨atMs, ht atMs (hmem atMs rfl), hholds.prune hclock⟩
    | clear => exact ⟨t, le_refl t, holds_nil windowMs t⟩

/-! ## Reads -/

theorem foldl_failures (entries : List (String × FailureEvent)) (n : ℕ) :
    entries.foldl (fun failures e => if e.2.failed then failures + 1 else failures) n =
      n + entries.countP (fun e => e.2.failed) := by
  induction entries generalizing n with
  | nil => rfl
  | cons e entries ih =>
    rw [List.foldl_cons, ih, List.countP_cons]
    by_cases hfailed : e.2.failed = true
    · rw [if_pos hfailed, if_pos hfailed, Nat.add_assoc, Nat.add_comm 1]
    · rw [if_neg hfailed, if_neg hfailed, Nat.add_zero]

theorem mem_counted {key : String} {event : FailureEvent} :
    (key, event) ∈ counted windowMs t history ↔
      latestOf history key = some event ∧ InWindow windowMs t event := by
  unfold counted
  rw [List.mem_filterMap]
  constructor
  · rintro ⟨key', -, hkey⟩
    obtain ⟨event', hfilter, heq⟩ := Option.map_eq_some_iff.mp hkey
    obtain ⟨rfl, rfl⟩ := Prod.mk.inj heq
    obtain ⟨hlatest, hin⟩ := Option.filter_eq_some_iff.mp hfilter
    exact ⟨hlatest, by simpa using hin⟩
  · rintro ⟨hlatest, hin⟩
    refine ⟨key, ?_, ?_⟩
    · obtain ⟨e, hfind, -⟩ := Option.map_eq_some_iff.mp hlatest
      have hkey : e.1 = key := by simpa using List.find?_some hfind
      have hmem : e ∈ history := List.mem_reverse.mp (List.mem_of_find?_eq_some hfind)
      exact List.mem_dedup.mpr (List.mem_map.mpr ⟨e, hmem, hkey⟩)
    · rw [Option.map_eq_some_iff]
      exact ⟨event, Option.filter_eq_some_iff.mpr ⟨hlatest, by simpa using hin⟩, rfl⟩

theorem counted_nodup (windowMs t : ℚ) (history : List (String × FailureEvent)) :
    (counted windowMs t history).Nodup := by
  unfold counted
  refine List.Nodup.filterMap ?_ (List.nodup_dedup _)
  intro key key' e he he'
  obtain ⟨event, -, rfl⟩ := Option.map_eq_some_iff.mp he
  obtain ⟨event', -, heq⟩ := Option.map_eq_some_iff.mp he'
  exact (congrArg Prod.fst heq).symm

/-- The pruned map is the reference's list, in another order. -/
theorem Holds.perm_counted (h : Holds windowMs clock history latest) (ht : clock ≤ t) :
    (FailureWindow.prune windowMs t latest).entries.Perm (counted windowMs t history) := by
  rw [List.perm_ext_iff_of_nodup (List.Nodup.of_map _ (FailureWindow.prune windowMs t latest).nodup)
    (counted_nodup windowMs t history)]
  rintro ⟨key, event⟩
  rw [← OrderedMap.get?_eq_some, mem_counted, h.get?_prune]
  constructor
  · rintro ⟨hget, hin⟩
    have hlatest := h.kept key event hget
    exact ⟨hlatest, hin, (h.past key event hlatest).trans ht⟩
  · rintro ⟨hlatest, hin, -⟩
    refine ⟨?_, hin⟩
    cases hget : latest.get? key with
    | none =>
      have hout := h.dropped key event hlatest hget
      linarith
    | some event' => rw [(h.kept key event' hget).symm.trans hlatest]

/-- **A read equals the reference**: after any calls at moments that do not decrease, the statistics at `t`
are those of the distinct keys whose latest event is in `(t - window, t]`. -/
theorem stats_eq_reference (windowMs : ℚ) (acts : List Act) (t : ℚ) (h : NonDecreasing (acts ++ [.stats t])) :
    (stats windowMs t (run (act windowMs) OrderedMap.empty acts)).2 =
      reference windowMs t (historyOf acts) := by
  unfold NonDecreasing at h
  rw [List.filterMap_append, List.pairwise_append] at h
  obtain ⟨hbefore, -, hlast⟩ := h
  obtain ⟨clock, hclock, hholds⟩ :=
    run_holds windowMs hbefore t (fun time hmem => hlast time hmem t (by simp [Act.time]))
  have hperm := hholds.perm_counted hclock
  unfold stats reference
  simp only [foldl_failures, Nat.zero_add, hperm.countP_eq, hperm.length_eq]

/-- A key that failed twice and one that answered, read when the first event is out. -/
theorem stats_eq_reference_moved :
    (stats 120 121 (run (act 120) OrderedMap.empty
        [.record "k" true 0, .record "other" false 1, .record "k" true 100])).2 =
      reference 120 121
        (historyOf [.record "k" true 0, .record "other" false 1, .record "k" true 100]) :=
  stats_eq_reference 120 _ 121 (by unfold NonDecreasing; decide +kernel)

end FailureWindow

end Binarius
