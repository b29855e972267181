import Mathlib.Tactic
import Binarius.Lib.Runs
import Binarius.Lib.Window

/-!
# Worker.GetBudget — the worker's share of the broker's limit
(apps/trading-worker/src/broker/get-budget.ts)

* `BrokerGetBudget`: the GETs made, the reserved ones and the meters; `begin`, `count` and `stop` are the
  meters' calls, each with the reading of the clock it makes.
* `GetRun`: the budget beside the log of every GET sent, the carried-over ones included.
* `GetRun.Inv`: the reserved ones are the meters', made and reserved fit the cap, and what `trim` dropped
  has left the window; `GetRun.Inv.act` is the step lemma.
* `get_budget`: **the budget holds in every window.**
-/

namespace Binarius

open Lib

def BROKER_GET_WINDOW_MS : ℚ := 60000

/-- One loop's view: what is left of its reservation, and whether it holds one. -/
structure GetMeter where
  left : ℤ
  active : Bool
  deriving DecidableEq, Repr

structure BrokerGetBudget where
  perMinute : ℤ
  made : List ℚ
  outstanding : ℤ
  meters : List GetMeter
  deriving DecidableEq, Repr

structure BrokerGetBudgetOptions where
  perMinute : ℤ
  carriedOver : ℤ
  deriving DecidableEq, Repr

/-- `now` answers the readings of the clock, in order. -/
def createBrokerGetBudget (o : BrokerGetBudgetOptions) (now : ℕ → ℚ) : Except String BrokerGetBudget :=
  if o.perMinute < 1 then
    .error s!"perMinute must be a positive integer, got {o.perMinute}"
  else if o.carriedOver < 0 ∨ o.perMinute < o.carriedOver then
    .error s!"carriedOver must be an integer in [0, {o.perMinute}], got {o.carriedOver}"
  else
    .ok {
      perMinute := o.perMinute
      made := (List.range o.carriedOver.toNat).map now
      outstanding := 0
      meters := [] }

namespace BrokerGetBudget

def trim (b : BrokerGetBudget) (now : ℚ) : BrokerGetBudget :=
  { b with made := b.made.dropWhile (fun t => t ≤ now - BROKER_GET_WINDOW_MS) }

/-- The window's GETs and the reserved ones, after `trim`. -/
def committed (b : BrokerGetBudget) (now : ℚ) : ℤ := (b.trim now).made.length + (b.trim now).outstanding

/-- `meter(rest)`: a loop takes its view. -/
def meter (b : BrokerGetBudget) : BrokerGetBudget := { b with meters := b.meters ++ [⟨0, false⟩] }

/-- A call of `rest` by meter `m`. -/
def count (b : BrokerGetBudget) (m : ℕ) (now : ℚ) : BrokerGetBudget :=
  match b.meters[m]? with
  | some meter =>
    if 0 < meter.left then
      { b with
        outstanding := b.outstanding - 1
        made := b.made ++ [now]
        meters := b.meters.set m { meter with left := meter.left - 1 } }
    else
      { b with made := b.made ++ [now] }
  | none => b

/-- `begin(gets)`: whether the reservation was granted, or the text of what it throws. -/
def begin (b : BrokerGetBudget) (m : ℕ) (gets : ℤ) (now : ℚ) : Except String Bool × BrokerGetBudget :=
  match b.meters[m]? with
  | some meter =>
    if gets < 1 then
      (.error s!"a reservation must be a positive integer, got {gets}", b)
    else if meter.active then
      (.error "begin() while this meter holds a reservation", b)
    else if b.perMinute < b.committed now + gets then
      (.ok false, b.trim now)
    else
      (.ok true, { b.trim now with
        outstanding := b.outstanding + gets
        meters := b.meters.set m ⟨gets, true⟩ })
  | none => (.ok false, b)

/-- `end()`. -/
def stop (b : BrokerGetBudget) (m : ℕ) : BrokerGetBudget :=
  match b.meters[m]? with
  | some meter =>
    { b with
      outstanding := b.outstanding - meter.left
      meters := b.meters.set m ⟨0, false⟩ }
  | none => b

/-- What the meters hold of their reservations. -/
def reserved (b : BrokerGetBudget) : ℤ := (b.meters.map GetMeter.left).sum

end BrokerGetBudget

/-! ## Runs of the meters -/

/-- A call, with the reading of the clock it makes. -/
inductive GetCall
  | meter
  | begin (m : ℕ) (gets : ℤ) (now : ℚ)
  | get (m : ℕ) (now : ℚ)
  | stop (m : ℕ)
  | committed (now : ℚ)
  deriving DecidableEq, Repr

/-- The budget, every GET sent so far and the last reading of the clock. -/
structure GetRun where
  budget : BrokerGetBudget
  sent : List ℚ
  clock : ℚ
  deriving DecidableEq, Repr

namespace GetRun

def start (b : BrokerGetBudget) (clock : ℚ) : GetRun where
  budget := b
  sent := b.made
  clock := clock

def act (w : GetRun) : GetCall → GetRun
  | .meter => { w with budget := w.budget.meter }
  | .begin m gets now => { w with budget := (w.budget.begin m gets now).2, clock := now }
  | .get m now => { budget := w.budget.count m now, sent := w.sent ++ [now], clock := now }
  | .stop m => { w with budget := w.budget.stop m }
  | .committed now => { w with budget := w.budget.trim now, clock := now }

/-- The clock does not go back, and a GET is one of a granted reservation. -/
def Ok (w : GetRun) : GetCall → Prop
  | .begin _ _ now => w.clock ≤ now
  | .get m now => w.clock ≤ now ∧ ∃ meter, w.budget.meters[m]? = some meter ∧ 0 < meter.left
  | .committed now => w.clock ≤ now
  | _ => True

/-! ## The invariant -/

structure Inv (cap : ℤ) (w : GetRun) : Prop where
  perMinute : w.budget.perMinute = cap
  left : ∀ meter ∈ w.budget.meters, 0 ≤ meter.left ∧ (meter.active = false → meter.left = 0)
  outstanding : w.budget.outstanding = w.budget.reserved
  fits : w.budget.made.length + w.budget.outstanding ≤ w.budget.perMinute
  kept : Kept BROKER_GET_WINDOW_MS w.sent w.budget.made w.clock
  windows : ∀ P : ℚ → Bool, Narrow BROKER_GET_WINDOW_MS P → (w.sent.countP P : ℤ) ≤ w.budget.perMinute

theorem Inv.start {o : BrokerGetBudgetOptions} {now : ℕ → ℚ} {b : BrokerGetBudget} {clock : ℚ}
    (h : createBrokerGetBudget o now = .ok b) (hpast : ∀ n : ℕ, (n : ℤ) < o.carriedOver → now n ≤ clock) :
    Inv o.perMinute (GetRun.start b clock) := by
  unfold createBrokerGetBudget at h
  split_ifs at h with hcap hcarried
  obtain rfl := Except.ok.inj h
  obtain ⟨hpos, hle⟩ := not_or.mp hcarried
  have hlength : ((List.range o.carriedOver.toNat).map now).length = o.carriedOver.toNat := by
    rw [List.length_map, List.length_range]
  refine ⟨rfl, fun meter hm => absurd hm List.not_mem_nil, rfl, ?_,
    ⟨⟨[], rfl, fun t ht => absurd ht List.not_mem_nil⟩, fun t ht => ?_⟩, fun P _ => ?_⟩
  · show (((List.range o.carriedOver.toNat).map now).length : ℤ) + 0 ≤ o.perMinute
    rw [hlength]
    omega
  · obtain ⟨n, hn, rfl⟩ := List.mem_map.mp ht
    have hn' := List.mem_range.mp hn
    exact hpast n (by omega)
  · have hcount : ((List.range o.carriedOver.toNat).map now).countP P ≤ o.carriedOver.toNat := by
      exact List.countP_le_length.trans hlength.le
    show (((List.range o.carriedOver.toNat).map now).countP P : ℤ) ≤ o.perMinute
    omega

/-- One meter's reservation changes: by as much the sum changes. -/
theorem sum_set {meters : List GetMeter} {m : ℕ} {meter : GetMeter} (h : meters[m]? = some meter)
    (left : ℤ) (active : Bool) : ((meters.set m ⟨left, active⟩).map GetMeter.left).sum =
      (meters.map GetMeter.left).sum - meter.left + left := by
  induction meters generalizing m with
  | nil => simp at h
  | cons head meters ih =>
    cases m with
    | zero =>
      obtain rfl := Option.some.inj h
      simp only [List.set_cons_zero, List.map_cons, List.sum_cons]
      omega
    | succ m =>
      simp only [List.set_cons_succ, List.map_cons, List.sum_cons]
      rw [ih h]
      omega

variable {cap : ℤ} {w : GetRun}

theorem Inv.trim (h : Inv cap w) {now : ℚ} (hnow : w.clock ≤ now) :
    Inv cap { w with budget := w.budget.trim now, clock := now } := by
  refine ⟨h.perMinute, h.left, h.outstanding, ?_, (h.kept.later hnow).drop, h.windows⟩
  have hshorter : (w.budget.made.dropWhile (fun t => decide (t ≤ now - BROKER_GET_WINDOW_MS))).length ≤
      w.budget.made.length := (List.dropWhile_sublist _).length_le
  have hfits := h.fits
  show ((w.budget.made.dropWhile (fun t => decide (t ≤ now - BROKER_GET_WINDOW_MS))).length : ℤ) +
    w.budget.outstanding ≤ w.budget.perMinute
  omega

theorem Inv.left_set (h : Inv cap w) {m : ℕ} {meter : GetMeter} (hleft : 0 ≤ meter.left)
    (hidle : meter.active = false → meter.left = 0) :
    ∀ meter' ∈ w.budget.meters.set m meter, 0 ≤ meter'.left ∧ (meter'.active = false → meter'.left = 0) := by
  intro meter' hmem
  rcases List.mem_or_eq_of_mem_set hmem with hold | rfl
  · exact h.left meter' hold
  · exact ⟨hleft, hidle⟩

/-- A reservation is granted where it fits what is committed. -/
theorem Inv.begin (h : Inv cap w) {m : ℕ} {gets : ℤ} {now : ℚ} (hnow : w.clock ≤ now) :
    Inv cap { w with budget := (w.budget.begin m gets now).2, clock := now } := by
  have hsame : Inv cap { w with clock := now } :=
    ⟨h.perMinute, h.left, h.outstanding, h.fits, h.kept.later hnow, h.windows⟩
  have htrim := h.trim hnow
  unfold BrokerGetBudget.begin
  split
  · rename_i meter hm
    split_ifs with hgets hactive hfull
    · exact hsame
    · exact hsame
    · exact htrim
    · have hleft : meter.left = 0 := (h.left meter (List.mem_of_getElem? hm)).2 (by simpa using hactive)
      have hcommitted : w.budget.committed now = (w.budget.trim now).made.length + w.budget.outstanding := rfl
      refine ⟨h.perMinute, h.left_set (by show 0 ≤ gets; omega) (fun hno => nomatch hno), ?_, ?_,
        htrim.kept, htrim.windows⟩
      · show w.budget.outstanding + gets = ((w.budget.meters.set m ⟨gets, true⟩).map GetMeter.left).sum
        rw [sum_set hm, hleft, h.outstanding, BrokerGetBudget.reserved]
        omega
      · show ((w.budget.trim now).made.length : ℤ) + (w.budget.outstanding + gets) ≤ w.budget.perMinute
        omega
  · exact hsame

/-- A GET of a granted reservation moves one unit from the reserved to the made. -/
theorem Inv.count (h : Inv cap w) {m : ℕ} {meter : GetMeter} {now : ℚ} (hnow : w.clock ≤ now)
    (hm : w.budget.meters[m]? = some meter) (hleft : 0 < meter.left) :
    Inv cap { budget := w.budget.count m now, sent := w.sent ++ [now], clock := now } := by
  have hcount : w.budget.count m now = { w.budget with
      outstanding := w.budget.outstanding - 1
      made := w.budget.made ++ [now]
      meters := w.budget.meters.set m { meter with left := meter.left - 1 } } := by
    unfold BrokerGetBudget.count
    rw [hm]
    exact if_pos hleft
  have hkept := h.kept.later hnow
  have hfits := h.fits
  -- one unit at least is reserved: the made ones leave room for it
  have hreserved : 1 ≤ w.budget.outstanding := by
    have hle : meter.left ≤ (w.budget.meters.map GetMeter.left).sum := by
      refine List.single_le_sum ?_ _ (List.mem_map_of_mem (List.mem_of_getElem? hm))
      intro left hmem
      obtain ⟨meter', hmeter', rfl⟩ := List.mem_map.mp hmem
      exact (h.left meter' hmeter').1
    rw [h.outstanding, BrokerGetBudget.reserved]
    omega
  rw [hcount]
  refine ⟨h.perMinute, h.left_set (by show 0 ≤ meter.left - 1; omega) (fun hno => ?_), ?_, ?_, hkept.push,
    fun P hP => ?_⟩
  · have hzero := (h.left meter (List.mem_of_getElem? hm)).2 hno
    omega
  · show w.budget.outstanding - 1 =
      ((w.budget.meters.set m { meter with left := meter.left - 1 }).map GetMeter.left).sum
    rw [sum_set hm, h.outstanding, BrokerGetBudget.reserved]
    omega
  · show ((w.budget.made ++ [now]).length : ℤ) + (w.budget.outstanding - 1) ≤ w.budget.perMinute
    rw [List.length_append, List.length_singleton]
    omega
  · show ((w.sent ++ [now]).countP P : ℤ) ≤ w.budget.perMinute
    rcases hkept.countP_push hP with hnew | hold
    · omega
    · rw [hold]
      exact h.windows P hP

theorem Inv.stop (h : Inv cap w) (m : ℕ) : Inv cap { w with budget := w.budget.stop m } := by
  unfold BrokerGetBudget.stop
  split
  · rename_i meter hm
    have hleft := (h.left meter (List.mem_of_getElem? hm)).1
    have hfits := h.fits
    refine ⟨h.perMinute, h.left_set (le_refl 0) (fun _ => rfl), ?_, ?_, h.kept, h.windows⟩
    · show w.budget.outstanding - meter.left = ((w.budget.meters.set m ⟨0, false⟩).map GetMeter.left).sum
      rw [sum_set hm, h.outstanding, BrokerGetBudget.reserved]
      omega
    · show (w.budget.made.length : ℤ) + (w.budget.outstanding - meter.left) ≤ w.budget.perMinute
      omega
  · exact h

theorem Inv.meter (h : Inv cap w) : Inv cap { w with budget := w.budget.meter } := by
  refine ⟨h.perMinute, fun meter hm => ?_, ?_, h.fits, h.kept, h.windows⟩
  · rcases List.mem_append.mp hm with hold | hnew
    · exact h.left meter hold
    · rw [List.mem_singleton.mp hnew]
      exact And.intro (le_refl 0) (fun _ => rfl)
  · show w.budget.outstanding = ((w.budget.meters ++ [(⟨0, false⟩ : GetMeter)]).map GetMeter.left).sum
    rw [List.map_append, List.sum_append, h.outstanding, BrokerGetBudget.reserved]
    simp

/-- **The step lemma.** -/
theorem Inv.act (h : Inv cap w) {e : GetCall} (he : w.Ok e) : Inv cap (w.act e) := by
  cases e with
  | meter => exact h.meter
  | begin m gets now => exact h.begin he
  | get m now =>
    obtain ⟨hnow, meter, hm, hleft⟩ := he
    exact h.count hnow hm hleft
  | stop m => exact h.stop m
  | committed now => exact h.trim he

end GetRun

/-! ## The budget -/

theorem narrow_from (a : ℚ) : Narrow BROKER_GET_WINDOW_MS
    (fun t => decide (a ≤ t ∧ t < a + BROKER_GET_WINDOW_MS)) := by
  intro t t' ht ht'
  have h := (of_decide_eq_true ht).1
  have h' := (of_decide_eq_true ht').2
  linarith

theorem narrow_until (a : ℚ) : Narrow BROKER_GET_WINDOW_MS
    (fun t => decide (a - BROKER_GET_WINDOW_MS < t ∧ t ≤ a)) := by
  intro t t' ht ht'
  have h := (of_decide_eq_true ht).1
  have h' := (of_decide_eq_true ht').2
  linarith

/-- **The budget holds in every window**: the GETs of any 60 seconds, the carried-over ones included, fit
the cap, and so do the made and the reserved together. -/
theorem get_budget {o : BrokerGetBudgetOptions} {now : ℕ → ℚ} {b : BrokerGetBudget} {clock : ℚ}
    {calls : List GetCall} (hcreate : createBrokerGetBudget o now = .ok b)
    (hpast : ∀ n : ℕ, (n : ℤ) < o.carriedOver → now n ≤ clock)
    (hcalls : RunOk GetRun.act GetRun.Ok (GetRun.start b clock) calls) :
    let w := run GetRun.act (GetRun.start b clock) calls
    (∀ a, (w.sent.countP (fun t => decide (a ≤ t ∧ t < a + BROKER_GET_WINDOW_MS)) : ℤ) ≤ o.perMinute ∧
      (w.sent.countP (fun t => decide (a - BROKER_GET_WINDOW_MS < t ∧ t ≤ a)) : ℤ) ≤ o.perMinute) ∧
    w.budget.made.length + w.budget.reserved ≤ o.perMinute ∧
    ∀ later, w.clock ≤ later → w.budget.committed later ≤ o.perMinute ∧
      (w.sent.countP (fun t => decide (later - BROKER_GET_WINDOW_MS < t)) : ℤ) + w.budget.reserved ≤
        o.perMinute := by
  intro w
  have hw : GetRun.Inv o.perMinute w :=
    hcalls.induction (GetRun.Inv.start hcreate hpast) (fun _ _ he h => h.act he)
  have hcap := hw.perMinute
  refine ⟨fun a => ⟨?_, ?_⟩, ?_, fun later hlater => ?_⟩
  · rw [← hcap]
    exact hw.windows _ (narrow_from a)
  · rw [← hcap]
    exact hw.windows _ (narrow_until a)
  · rw [← hw.outstanding, ← hcap]
    exact hw.fits
  · have htrim := hw.trim hlater
    have hfits : ((w.budget.trim later).made.length : ℤ) + (w.budget.trim later).outstanding ≤
        w.budget.perMinute := htrim.fits
    refine ⟨by rw [← hcap]; exact hfits, ?_⟩
    have hwindow : (w.sent.countP (fun t => decide (later - BROKER_GET_WINDOW_MS < t))) ≤
        (w.budget.trim later).made.length := by
      rw [htrim.kept.countP_window]
      exact List.countP_le_length
    have houtstanding : (w.budget.trim later).outstanding = w.budget.reserved := htrim.outstanding
    omega

/-- Two meters: one GET carried over, one made, the third refused. -/
def sharedCalls : List GetCall :=
  [.meter, .meter, .begin 0 1 10, .begin 1 1 20, .get 0 30, .stop 0, .committed 60000]

theorem get_budget_shared :
    let w := run GetRun.act (GetRun.start ⟨2, [0], 0, []⟩ 0) sharedCalls
    w.sent = [0, 30] ∧ (w.budget.made.length : ℤ) + w.budget.reserved ≤ 2 := by
  refine ⟨by decide +kernel,
    (@get_budget ⟨2, 1⟩ (fun _ => 0) _ 0 sharedCalls rfl (fun _ _ => le_refl 0) ?_).2.1⟩
  exact ⟨trivial, trivial, show (0 : ℚ) ≤ 10 by norm_num, show (10 : ℚ) ≤ 20 by norm_num,
    ⟨show (20 : ℚ) ≤ 30 by norm_num, ⟨1, true⟩, by decide +kernel, by decide⟩, trivial,
    show (30 : ℚ) ≤ 60000 by norm_num, trivial⟩

end Binarius
