import Mathlib.Tactic
import Binarius.Lib.Runs
import Binarius.Lib.TokenBucket

/-!
# Backend.ScanPacer — the pacer of the signal chart GETs (apps/backend/src/signal/pacer.ts)

Moments, rates and tokens are rationals.

* `ScanPacer.call`: one call of the pacer and its answer.
* `ScanPacer.Bounds.refill`: a refill keeps the bucket in its capacity and the overflow in one token.
* `ScanRun.Same`: what a run with spare takes and the run without them agree on; `ScanRun.Same.spare`: **a
  spare take leaves it**.
* `scan_pacer`: no answer depends on the spare takes, every window is bounded and no pause has a grant.
-/

namespace Binarius

open Lib

structure ScanPacerOptions where
  perMinute : ℚ
  capacity : ℚ
  backoffMinMs : ℚ
  backoffMaxMs : ℚ

structure ScanPacer where
  tokens : ℚ
  /-- what refills discarded above the capacity, at most one token -/
  overflow : ℚ
  refilledAt : ℚ
  pauseEnd : Option ℚ
  backoffs : ℕ

/-- A bad option is a RangeError. -/
def createScanPacer (o : ScanPacerOptions) (now : ℚ) : Except String ScanPacer :=
  if 0 < o.perMinute ∧ 1 ≤ o.capacity ∧ 0 < o.backoffMinMs ∧ o.backoffMinMs ≤ o.backoffMaxMs then
    .ok { tokens := o.capacity, overflow := 0, refilledAt := now, pauseEnd := none, backoffs := 0 }
  else .error "scan pacer: perMinute > 0, capacity >= 1 and 0 < min <= max backoff"

inductive ScanCall
  | tryTake (now : ℚ)
  | tryTakeSpare (now : ℚ)
  | onRateLimited (retryAfterSec : Option ℚ) (now : ℚ)
  | onDecided
  | pausedUntil (now : ℚ)
  deriving DecidableEq

inductive ScanAnswer
  | taken (granted : Bool)
  | added (ms : ℚ)
  | decided
  | until (pauseEnd : Option ℚ)
  deriving DecidableEq

namespace ScanPacer

variable (o : ScanPacerOptions) (p : ScanPacer)

def refill (now : ℚ) : ScanPacer :=
  let raw := p.tokens + (now - p.refilledAt) * o.perMinute / 60000
  { p with
    overflow := min 1 (p.overflow + max 0 (raw - o.capacity))
    tokens := min o.capacity raw
    refilledAt := now }

/-- The pause that still stands at `now`. -/
def pausedAt (now : ℚ) : Option ℚ := p.pauseEnd.filter (fun e => decide (now < e))

/-- `paused`: a pause that is over is forgotten. -/
def settlePause (now : ℚ) : ScanPacer := { p with pauseEnd := p.pausedAt now }

/-- `onRateLimited`, after `paused`: the ms added, and the pacer. -/
def rateLimited (retryAfterSec : Option ℚ) (now : ℚ) : ℚ × ScanPacer :=
  let before := p.pauseEnd.getD now
  match retryAfterSec with
  | some sec =>
    let pauseEnd := max before (now + min o.backoffMaxMs (max o.backoffMinMs (sec * 1000)))
    (pauseEnd - before, { p with pauseEnd := some pauseEnd })
  | none =>
    -- the same 429 burst
    if now < before then (0, p)
    else
      let pauseEnd := max before (now + min o.backoffMaxMs (o.backoffMinMs * 2 ^ p.backoffs))
      (pauseEnd - before, { p with pauseEnd := some pauseEnd, backoffs := p.backoffs + 1 })

/-- One call. -/
def call : ScanCall → ScanAnswer × ScanPacer
  | .tryTake now =>
    let q := (p.refill o now).settlePause now
    if q.pauseEnd.isSome ∨ q.tokens < 1 then (.taken false, q)
    else (.taken true, { q with tokens := q.tokens - 1 })
  | .tryTakeSpare now =>
    let q := (p.refill o now).settlePause now
    if q.pauseEnd.isSome ∨ q.overflow < 1 then (.taken false, q)
    else (.taken true, { q with overflow := q.overflow - 1 })
  | .onRateLimited retryAfterSec now =>
    let (ms, q) := (p.settlePause now).rateLimited o retryAfterSec now
    (.added ms, q)
  | .onDecided => (.decided, { p with backoffs := 0 })
  | .pausedUntil now => (.until (p.pausedAt now), p.settlePause now)

end ScanPacer

def ScanCall.spare : ScanCall → Bool
  | .tryTakeSpare _ => true
  | _ => false

/-- The reading of the clock a call makes. -/
def ScanCall.now : ScanCall → Option ℚ
  | .tryTake now => some now
  | .tryTakeSpare now => some now
  | .onRateLimited _ now => some now
  | .onDecided => none
  | .pausedUntil now => some now

/-- A call, its answer, and the pause it left. -/
structure ScanEntry where
  call : ScanCall
  answer : ScanAnswer
  pauseEnd : Option ℚ

/-- The moment of a grant, of either kind. -/
def ScanEntry.grantedAt (e : ScanEntry) : Option ℚ := if e.answer = .taken true then e.call.now else none

structure ScanRun where
  pacer : ScanPacer
  clock : ℚ
  log : List ScanEntry

namespace ScanRun

def start (p : ScanPacer) (now : ℚ) : ScanRun := { pacer := p, clock := now, log := [] }

def act (o : ScanPacerOptions) (w : ScanRun) (c : ScanCall) : ScanRun :=
  let (answer, pacer) := w.pacer.call o c
  { pacer, clock := c.now.getD w.clock, log := w.log ++ [⟨c, answer, pacer.pauseEnd⟩] }

/-- The clock does not go back. -/
def Ok (w : ScanRun) (c : ScanCall) : Prop := ∀ now, c.now = some now → w.clock ≤ now

/-- The moments of the grants, in order. -/
def grants (w : ScanRun) : List ℚ := w.log.filterMap ScanEntry.grantedAt

/-- The calls but the spare takes, with their answers. -/
def mainAnswers (w : ScanRun) : List (ScanCall × ScanAnswer) :=
  (w.log.filter (fun e => !e.call.spare)).map (fun e => (e.call, e.answer))

end ScanRun

/-! ## One call -/

section Calls

variable {o : ScanPacerOptions} {p q : ScanPacer} {now later : ℚ}

/-- What the options are checked for. -/
structure ScanPacerOptions.Valid (o : ScanPacerOptions) : Prop where
  perMinute : 0 < o.perMinute
  capacity : 1 ≤ o.capacity
  backoff : 0 < o.backoffMinMs ∧ o.backoffMinMs ≤ o.backoffMaxMs

theorem createScanPacer_ok (h : createScanPacer o now = .ok p) :
    o.Valid ∧
      p = { tokens := o.capacity, overflow := 0, refilledAt := now, pauseEnd := none, backoffs := 0 } := by
  unfold createScanPacer at h
  split_ifs at h with hvalid
  exact ⟨⟨hvalid.1, hvalid.2.1, hvalid.2.2⟩, (Except.ok.inj h).symm⟩

/-- The bucket is in its capacity, the overflow in one token. -/
structure ScanPacer.Bounds (o : ScanPacerOptions) (p : ScanPacer) : Prop where
  tokens : 0 ≤ p.tokens ∧ p.tokens ≤ o.capacity
  overflow : 0 ≤ p.overflow ∧ p.overflow ≤ 1

theorem refilled_nonneg (hv : o.Valid) (hnow : p.refilledAt ≤ now) :
    0 ≤ (now - p.refilledAt) * o.perMinute / 60000 :=
  div_nonneg (mul_nonneg (sub_nonneg.mpr hnow) hv.perMinute.le) (by norm_num)

theorem ScanPacer.Bounds.refill (h : p.Bounds o) (hv : o.Valid) (hnow : p.refilledAt ≤ now) :
    (p.refill o now).Bounds o := by
  have hadd := refilled_nonneg hv hnow
  have hcapacity := hv.capacity
  obtain ⟨⟨htokens, -⟩, hoverflow, -⟩ := h
  refine ⟨⟨?_, min_le_left _ _⟩, ?_, min_le_left _ _⟩
  · exact le_min (by linarith) (by linarith)
  · have hmax : (0 : ℚ) ≤ max 0 (p.tokens + (now - p.refilledAt) * o.perMinute / 60000 - o.capacity) :=
      le_max_left _ _
    exact le_min zero_le_one (by linarith)

/-- **A refill makes no token**: the bucket and the overflow share what the time brought. -/
theorem refill_total : (p.refill o now).tokens + (p.refill o now).overflow ≤
    p.tokens + p.overflow + o.perMinute / 60000 * (now - p.refilledAt) := by
  show min o.capacity (p.tokens + (now - p.refilledAt) * o.perMinute / 60000) +
    min 1 (p.overflow + max 0 (p.tokens + (now - p.refilledAt) * o.perMinute / 60000 - o.capacity)) ≤ _
  have hsame : (now - p.refilledAt) * o.perMinute / 60000 = o.perMinute / 60000 *
    (now - p.refilledAt) := by ring
  rw [hsame]
  set raw := p.tokens + o.perMinute / 60000 * (now - p.refilledAt) with hraw
  have hoverflow := min_le_right 1 (p.overflow + max 0 (raw - o.capacity))
  by_cases hfull : raw ≤ o.capacity
  · rw [min_eq_right hfull]
    rw [max_eq_left (by linarith)] at hoverflow ⊢
    linarith
  · have hover : o.capacity ≤ raw := (not_le.mp hfull).le
    rw [min_eq_left hover]
    rw [max_eq_right (by linarith)] at hoverflow ⊢
    linarith

/-- Two refills bring the tokens of one. -/
theorem refill_tokens (hv : o.Valid) (hnow : now ≤ later) :
    ((p.refill o now).refill o later).tokens = (p.refill o later).tokens := by
  show min o.capacity (min o.capacity (p.tokens + (now - p.refilledAt) * o.perMinute / 60000) +
    (later - now) * o.perMinute / 60000) = min o.capacity (p.tokens + (later - p.refilledAt) *
      o.perMinute / 60000)
  have hadd : 0 ≤ (later - now) * o.perMinute / 60000 :=
    div_nonneg (mul_nonneg (sub_nonneg.mpr hnow) hv.perMinute.le) (by norm_num)
  have hsplit : p.tokens + (later - p.refilledAt) * o.perMinute / 60000 =
      p.tokens + (now - p.refilledAt) * o.perMinute / 60000 + (later - now) * o.perMinute / 60000 := by ring
  rw [hsplit, min_add, ← min_assoc, min_eq_left (b := o.capacity + _) (by linarith)]

theorem pausedAt_settlePause (hnow : now ≤ later) :
    (p.settlePause now).pausedAt later = p.pausedAt later := by
  show (p.pauseEnd.filter (fun e => decide (now < e))).filter (fun e => decide (later < e)) = _
  unfold ScanPacer.pausedAt
  cases p.pauseEnd with
  | none => rfl
  | some pauseEnd =>
    by_cases hstands : now < pauseEnd
    · simp [Option.filter_some, hstands]
    · have hlater : ¬ later < pauseEnd := fun h => hstands (hnow.trans_lt h)
      simp [Option.filter_some, hstands, hlater]

/-! ## Two pacers -/

/-- From the clock on, two pacers answer everything but spare takes alike. -/
structure ScanPacer.Agree (o : ScanPacerOptions) (clock : ℚ) (p q : ScanPacer) : Prop where
  pause : ∀ now, clock ≤ now → p.pausedAt now = q.pausedAt now
  tokens : ∀ now, clock ≤ now → (p.refill o now).tokens = (q.refill o now).tokens
  backoffs : p.backoffs = q.backoffs

variable {clock : ℚ}

theorem ScanPacer.Agree.refl (o : ScanPacerOptions) (clock : ℚ) (p : ScanPacer) : p.Agree o clock p :=
  ⟨fun _ _ => rfl, fun _ _ => rfl, rfl⟩

/-- **A spare take leaves the agreement**: it takes from the overflow alone. -/
theorem ScanPacer.Agree.spare (h : p.Agree o clock q) (hv : o.Valid) (hnow : clock ≤ now) :
    ((p.call o (.tryTakeSpare now)).2).Agree o now q := by
  have hrefilled : ((p.refill o now).settlePause now).Agree o now q := by
    refine ⟨fun t ht => ?_, fun t ht => ?_, h.backoffs⟩
    · rw [pausedAt_settlePause ht]
      exact h.pause t (hnow.trans ht)
    · exact (refill_tokens hv ht).trans (h.tokens t (hnow.trans ht))
  unfold ScanPacer.call
  simp only
  split_ifs
  · exact hrefilled
  · exact ⟨hrefilled.pause, hrefilled.tokens, hrefilled.backoffs⟩

/-- The pause and the backoffs decide what a rate-limited answer does. -/
theorem rateLimited_congr (hpause : p.pauseEnd = q.pauseEnd) (hbackoffs : p.backoffs = q.backoffs)
    (retryAfterSec : Option ℚ) (now : ℚ) :
    (p.rateLimited o retryAfterSec now).1 = (q.rateLimited o retryAfterSec now).1 ∧
      (p.rateLimited o retryAfterSec now).2.pauseEnd = (q.rateLimited o retryAfterSec now).2.pauseEnd ∧
      (p.rateLimited o retryAfterSec now).2.backoffs = (q.rateLimited o retryAfterSec now).2.backoffs := by
  unfold ScanPacer.rateLimited
  rw [hpause, hbackoffs]
  cases retryAfterSec with
  | some sec => exact ⟨rfl, rfl, rfl⟩
  | none =>
    simp only
    split_ifs
    · exact ⟨rfl, hpause, hbackoffs⟩
    · exact ⟨rfl, rfl, rfl⟩

theorem rateLimited_tokens (retryAfterSec : Option ℚ) (t : ℚ) :
    ((p.rateLimited o retryAfterSec now).2.refill o t).tokens = (p.refill o t).tokens := by
  unfold ScanPacer.rateLimited
  cases retryAfterSec with
  | some sec => rfl
  | none =>
    simp only
    split_ifs
    · rfl
    · rfl

/-- **Any other call is answered alike**, and leaves the agreement. -/
theorem ScanPacer.Agree.main (h : p.Agree o clock q) (hv : o.Valid) {c : ScanCall} (hmain : c.spare = false)
    (hok : ∀ now, c.now = some now → clock ≤ now) :
    (p.call o c).1 = (q.call o c).1 ∧ ((p.call o c).2).Agree o (c.now.getD clock) (q.call o c).2 := by
  cases c with
  | tryTakeSpare now => cases hmain
  | onDecided => exact ⟨rfl, h.pause, h.tokens, rfl⟩
  | pausedUntil now =>
    have hnow : clock ≤ now := hok now rfl
    refine ⟨congrArg ScanAnswer.until (h.pause now hnow), fun t (ht : now ≤ t) => ?_, fun t ht => ?_,
      h.backoffs⟩
    · show (p.settlePause now).pausedAt t = (q.settlePause now).pausedAt t
      rw [pausedAt_settlePause ht, pausedAt_settlePause ht]
      exact h.pause t (hnow.trans ht)
    · exact h.tokens t (hnow.trans ht)
  | onRateLimited retryAfterSec now =>
    have hnow : clock ≤ now := hok now rfl
    obtain ⟨hms, hpause, hbackoffs⟩ := @rateLimited_congr o (p.settlePause now) (q.settlePause now)
      (h.pause now hnow) h.backoffs retryAfterSec now
    refine ⟨congrArg ScanAnswer.added hms, fun t _ => ?_, fun t ht => ?_, hbackoffs⟩
    · show ((p.settlePause now).rateLimited o retryAfterSec now).2.pauseEnd.filter _ = _
      rw [hpause]
      rfl
    · show ((((p.settlePause now).rateLimited o retryAfterSec now).2).refill o t).tokens =
        ((((q.settlePause now).rateLimited o retryAfterSec now).2).refill o t).tokens
      rw [rateLimited_tokens, rateLimited_tokens]
      exact h.tokens t (hnow.trans ht)
  | tryTake now =>
    have hnow : clock ≤ now := hok now rfl
    have hpause : ((p.refill o now).settlePause now).pauseEnd =
      ((q.refill o now).settlePause now).pauseEnd :=
      h.pause now hnow
    have htokens : ((p.refill o now).settlePause now).tokens = ((q.refill o now).settlePause now).tokens :=
      h.tokens now hnow
    unfold ScanPacer.call
    simp only
    rw [hpause, htokens]
    split_ifs
    · refine ⟨rfl, fun t _ => ?_, fun t ht => ?_, h.backoffs⟩
      · exact congrArg (fun e : Option ℚ => e.filter (fun e => decide (t < e))) hpause
      · exact (refill_tokens hv ht).trans ((h.tokens t (hnow.trans ht)).trans (refill_tokens hv ht).symm)
    · exact ⟨rfl, fun _ _ => rfl, fun _ _ => rfl, h.backoffs⟩

end Calls

/-! ## Runs -/

section Runs

variable {o : ScanPacerOptions} {w v : ScanRun}

theorem mainAnswers_act (w : ScanRun) (c : ScanCall) :
    (w.act o c).mainAnswers = w.mainAnswers ++ if c.spare then [] else [(c, (w.pacer.call o c).1)] := by
  show ((w.log ++ [_]).filter _).map _ = _
  rw [List.filter_append, List.map_append]
  cases hspare : c.spare with
  | true =>
    rw [List.filter_cons_of_neg (by simp [hspare])]
    rfl
  | false =>
    rw [List.filter_cons_of_pos (by simp [hspare])]
    rfl

/-- **Spare takes change no other answer.** -/
theorem mainAnswers_run (hv : o.Valid) (calls : List ScanCall)
    (hcalls : RunOk (ScanRun.act o) ScanRun.Ok w calls) (hagree : w.pacer.Agree o w.clock v.pacer)
    (hclock : v.clock ≤ w.clock) (hanswers : w.mainAnswers = v.mainAnswers) :
    (run (ScanRun.act o) w calls).mainAnswers =
      (run (ScanRun.act o) v (calls.filter (fun c => !c.spare))).mainAnswers := by
  induction calls generalizing w v with
  | nil => exact hanswers
  | cons c calls ih =>
    obtain ⟨hok, hrest⟩ := hcalls
    rw [run_cons]
    cases hspare : c.spare with
    | true =>
      rw [List.filter_cons_of_neg (by simp [hspare])]
      refine ih hrest ?_ ?_ ?_
      · cases c with
        | tryTakeSpare now => exact hagree.spare hv (hok now rfl)
        | _ => cases hspare
      · cases c with
        | tryTakeSpare now => exact hclock.trans (hok now rfl)
        | _ => cases hspare
      · rw [mainAnswers_act, if_pos hspare, List.append_nil]
        exact hanswers
    | false =>
      rw [List.filter_cons_of_pos (by simp [hspare]), run_cons]
      obtain ⟨hanswer, hagree'⟩ := hagree.main hv hspare hok
      refine ih hrest hagree' ?_ ?_
      · show c.now.getD v.clock ≤ c.now.getD w.clock
        cases c.now with
        | none => exact hclock
        | some now => exact le_refl now
      · rw [mainAnswers_act, mainAnswers_act, hanswers, hanswer]

/-! ## The budget and the pauses -/

/-- What every run keeps: the grants draw from one bucket of the capacity and the spare token, and a pause a
call left is over or stands. -/
structure ScanRun.Inv (o : ScanPacerOptions) (w : ScanRun) : Prop where
  bounds : w.pacer.Bounds o
  refilled : w.pacer.refilledAt ≤ w.clock
  bucket : Bucket (o.capacity + 1) (o.perMinute / 60000) w.grants (w.pacer.tokens + w.pacer.overflow)
    w.pacer.refilledAt
  pauses : ∀ e ∈ w.log, ∀ pauseEnd, e.pauseEnd = some pauseEnd →
    pauseEnd ≤ w.clock ∨ ∃ standing, w.pacer.pauseEnd = some standing ∧ pauseEnd ≤ standing
  quiet : w.log.Pairwise (fun e e' => ∀ pauseEnd granted, e.pauseEnd = some pauseEnd →
    e'.grantedAt = some granted → pauseEnd ≤ granted)

theorem ScanRun.Inv.start {p : ScanPacer} {now : ℚ} (h : createScanPacer o now = .ok p) :
    (ScanRun.start p now).Inv o := by
  obtain ⟨hv, rfl⟩ := createScanPacer_ok h
  have hcapacity := hv.capacity
  refine ⟨⟨⟨?_, le_refl _⟩, le_refl _, zero_le_one⟩, le_refl _, ?_, fun e he => absurd he List.not_mem_nil,
    List.Pairwise.nil⟩
  · show 0 ≤ o.capacity
    linarith
  · have hrate : 0 ≤ o.perMinute / 60000 := div_nonneg hv.perMinute.le (by norm_num)
    have hfull : Bucket (o.capacity + 1) (o.perMinute / 60000) [] (o.capacity + 1) now :=
      Bucket.full (by linarith) hrate now
    show Bucket _ _ [] (o.capacity + 0) now
    exact hfull.later hrate (le_refl now) (by linarith) (by linarith) (by rw [sub_self, mul_zero]; linarith)

/-- A pause that a call leaves outlasts those before it. -/
theorem call_pause {p : ScanPacer} {clock : ℚ} {c : ScanCall} (hok : ∀ now, c.now = some now → clock ≤ now)
    {pauseEnd : ℚ}
    (h : pauseEnd ≤ clock ∨ ∃ standing, p.pauseEnd = some standing ∧ pauseEnd ≤ standing) :
    pauseEnd ≤ c.now.getD clock ∨ ∃ standing, (p.call o c).2.pauseEnd = some standing ∧
      pauseEnd ≤ standing := by
  -- what `paused` leaves of a pause
  have hsettle : ∀ now, clock ≤ now →
      pauseEnd ≤ now ∨ ∃ standing, p.pausedAt now = some standing ∧ pauseEnd ≤ standing := by
    intro now hnow
    rcases h with hover | ⟨standing, hstanding, hle⟩
    · exact .inl (hover.trans hnow)
    · by_cases hstands : now < standing
      · refine .inr ⟨standing, ?_, hle⟩
        simp [ScanPacer.pausedAt, hstanding, Option.filter_some, hstands]
      · exact .inl (hle.trans (not_lt.mp hstands))
  cases c with
  | tryTake now =>
    have hcase := hsettle now (hok now rfl)
    unfold ScanPacer.call
    simp only
    split_ifs
    · exact hcase
    · exact hcase
  | tryTakeSpare now =>
    have hcase := hsettle now (hok now rfl)
    unfold ScanPacer.call
    simp only
    split_ifs
    · exact hcase
    · exact hcase
  | onDecided => exact h
  | pausedUntil now => exact hsettle now (hok now rfl)
  | onRateLimited retryAfterSec now =>
    rcases hsettle now (hok now rfl) with hover | ⟨standing, hstanding, hle⟩
    · exact .inl hover
    · right
      have hbefore : (p.settlePause now).pauseEnd.getD now = standing := by
        show (p.pausedAt now).getD now = standing
        rw [hstanding]
        rfl
      show ∃ s, (((p.settlePause now).rateLimited o retryAfterSec now).2).pauseEnd = some s ∧ pauseEnd ≤ s
      unfold ScanPacer.rateLimited
      rw [hbefore]
      cases retryAfterSec with
      | some sec => exact ⟨_, rfl, hle.trans (le_max_left _ _)⟩
      | none =>
        simp only
        split_ifs
        · exact ⟨standing, hstanding, hle⟩
        · exact ⟨_, rfl, hle.trans (le_max_left _ _)⟩

/-- A grant is made while no pause stands. -/
theorem call_granted {p : ScanPacer} {c : ScanCall} (h : (p.call o c).1 = .taken true) :
    ∃ now, c.now = some now ∧ p.pausedAt now = none := by
  cases c with
  | tryTake now =>
    refine ⟨now, rfl, ?_⟩
    unfold ScanPacer.call at h
    simp only at h
    split_ifs at h with hcut
    · cases h
    · exact Option.not_isSome_iff_eq_none.mp (not_or.mp hcut).1
  | tryTakeSpare now =>
    refine ⟨now, rfl, ?_⟩
    unfold ScanPacer.call at h
    simp only at h
    split_ifs at h with hcut
    · cases h
    · exact Option.not_isSome_iff_eq_none.mp (not_or.mp hcut).1
  | onDecided => cases h
  | pausedUntil now => cases h
  | onRateLimited retryAfterSec now => cases h

/-- A call that does not grant keeps the tokens, or refills them. -/
theorem ScanRun.Inv.refilled_bucket (h : w.Inv o) (hv : o.Valid) {now : ℚ} (hnow : w.clock ≤ now) :
    Bucket (o.capacity + 1) (o.perMinute / 60000) w.grants
      ((w.pacer.refill o now).tokens + (w.pacer.refill o now).overflow) now := by
  have hpast : w.pacer.refilledAt ≤ now := h.refilled.trans hnow
  obtain ⟨⟨htokens, hcapacity⟩, hoverflow, hone⟩ := h.bounds.refill hv hpast
  exact h.bucket.later (div_nonneg hv.perMinute.le (by norm_num)) hpast (by linarith) (by linarith)
    refill_total

theorem grants_act (w : ScanRun) (c : ScanCall) : (w.act o c).grants =
    w.grants ++ if (w.pacer.call o c).1 = .taken true then c.now.toList else [] := by
  show List.filterMap ScanEntry.grantedAt
    (w.log ++ [⟨c, (w.pacer.call o c).1, (w.pacer.call o c).2.pauseEnd⟩]) = _
  generalize w.pacer.call o c = answered
  rw [List.filterMap_append]
  refine congrArg (w.grants ++ ·) ?_
  by_cases hgranted : answered.1 = .taken true
  · rw [if_pos hgranted]
    cases hnow : c.now with
    | none => simp [ScanEntry.grantedAt, hnow]
    | some now => simp [ScanEntry.grantedAt, hgranted, hnow]
  · rw [if_neg hgranted]
    simp [ScanEntry.grantedAt, hgranted]

/-- **One call keeps the budget.** -/
theorem ScanRun.Inv.bucket_act (h : w.Inv o) (hv : o.Valid) {c : ScanCall} (hok : w.Ok c) :
    ((w.act o c).pacer).Bounds o ∧ (w.act o c).pacer.refilledAt ≤ (w.act o c).clock ∧
      Bucket (o.capacity + 1) (o.perMinute / 60000) (w.act o c).grants
        ((w.act o c).pacer.tokens + (w.act o c).pacer.overflow) (w.act o c).pacer.refilledAt := by
  rw [grants_act]
  have hrate : 0 ≤ o.perMinute / 60000 := div_nonneg hv.perMinute.le (by norm_num)
  have hquiet : Bucket (o.capacity + 1) (o.perMinute / 60000) (w.grants ++ [])
      (w.pacer.tokens + w.pacer.overflow) w.pacer.refilledAt := by
    rw [List.append_nil]
    exact h.bucket
  cases c with
  | onDecided => exact ⟨⟨h.bounds.tokens, h.bounds.overflow⟩, h.refilled, hquiet⟩
  | pausedUntil now => exact ⟨⟨h.bounds.tokens, h.bounds.overflow⟩, h.refilled.trans (hok now rfl), hquiet⟩
  | onRateLimited retryAfterSec now =>
    have hkept : ((w.pacer.settlePause now).rateLimited o retryAfterSec now).2.tokens = w.pacer.tokens ∧
        ((w.pacer.settlePause now).rateLimited o retryAfterSec now).2.overflow = w.pacer.overflow ∧
        ((w.pacer.settlePause now).rateLimited o retryAfterSec now).2.refilledAt = w.pacer.refilledAt := by
      unfold ScanPacer.rateLimited
      cases retryAfterSec with
      | some sec => exact ⟨rfl, rfl, rfl⟩
      | none =>
        simp only
        split_ifs
        · exact ⟨rfl, rfl, rfl⟩
        · exact ⟨rfl, rfl, rfl⟩
    show (((w.pacer.settlePause now).rateLimited o retryAfterSec now).2).Bounds o ∧
      ((w.pacer.settlePause now).rateLimited o retryAfterSec now).2.refilledAt ≤ now ∧
      Bucket _ _ (w.grants ++ []) (((w.pacer.settlePause now).rateLimited o retryAfterSec now).2.tokens +
        ((w.pacer.settlePause now).rateLimited o retryAfterSec now).2.overflow)
        ((w.pacer.settlePause now).rateLimited o retryAfterSec now).2.refilledAt
    generalize ((w.pacer.settlePause now).rateLimited o retryAfterSec now).2 = q at hkept ⊢
    obtain ⟨htokens, hoverflow, hrefilled⟩ := hkept
    refine ⟨⟨?_, ?_⟩, ?_, ?_⟩
    · rw [htokens]
      exact h.bounds.tokens
    · rw [hoverflow]
      exact h.bounds.overflow
    · rw [hrefilled]
      exact h.refilled.trans (hok now rfl)
    · rw [htokens, hoverflow, hrefilled]
      exact hquiet
  | tryTake now =>
    have hnow : w.clock ≤ now := hok now rfl
    have hbounds := h.bounds.refill hv (h.refilled.trans hnow)
    have hbucket := h.refilled_bucket hv hnow
    unfold ScanRun.act ScanPacer.call
    simp only
    split_ifs with hcut hgranted hgranted
    · cases hgranted
    · rw [List.append_nil]
      exact ⟨⟨hbounds.tokens, hbounds.overflow⟩, le_refl now, hbucket⟩
    · obtain ⟨hfree, hone⟩ := not_or.mp hcut
      have hone' : 1 ≤ (w.pacer.refill o now).tokens := not_lt.mp hone
      obtain ⟨⟨hnonneg, hcapacity⟩, hoverflow, hspare⟩ := hbounds
      have htake := hbucket.take hrate (by linarith)
      refine ⟨⟨⟨?_, ?_⟩, hoverflow, hspare⟩, le_refl now, ?_⟩
      · show 0 ≤ (w.pacer.refill o now).tokens - 1
        linarith
      · show (w.pacer.refill o now).tokens - 1 ≤ o.capacity
        linarith
      · show Bucket _ _ _ ((w.pacer.refill o now).tokens - 1 + (w.pacer.refill o now).overflow) now
        rw [sub_add_eq_add_sub]
        exact htake
    · exact absurd rfl hgranted
  | tryTakeSpare now =>
    have hnow : w.clock ≤ now := hok now rfl
    have hbounds := h.bounds.refill hv (h.refilled.trans hnow)
    have hbucket := h.refilled_bucket hv hnow
    unfold ScanRun.act ScanPacer.call
    simp only
    split_ifs with hcut hgranted hgranted
    · cases hgranted
    · rw [List.append_nil]
      exact ⟨⟨hbounds.tokens, hbounds.overflow⟩, le_refl now, hbucket⟩
    · obtain ⟨hfree, hone⟩ := not_or.mp hcut
      have hone' : 1 ≤ (w.pacer.refill o now).overflow := not_lt.mp hone
      obtain ⟨⟨hnonneg, hcapacity⟩, hoverflow, hspare⟩ := hbounds
      have htake := hbucket.take hrate (by linarith)
      refine ⟨⟨⟨hnonneg, hcapacity⟩, ?_, ?_⟩, le_refl now, ?_⟩
      · show 0 ≤ (w.pacer.refill o now).overflow - 1
        linarith
      · show (w.pacer.refill o now).overflow - 1 ≤ 1
        linarith
      · show Bucket _ _ _ ((w.pacer.refill o now).tokens + ((w.pacer.refill o now).overflow - 1)) now
        rw [← add_sub_assoc]
        exact htake
    · exact absurd rfl hgranted

/-- **One call keeps the invariant.** -/
theorem ScanRun.Inv.act (h : w.Inv o) (hv : o.Valid) {c : ScanCall} (hok : w.Ok c) : (w.act o c).Inv o := by
  obtain ⟨hbounds, hrefilled, hbucket⟩ := h.bucket_act hv hok
  refine ⟨hbounds, hrefilled, hbucket, fun e he pauseEnd hpause => ?_, ?_⟩
  · rcases List.mem_append.mp he with hold | hnew
    · exact call_pause hok (h.pauses e hold pauseEnd hpause)
    · rw [List.mem_singleton.mp hnew] at hpause
      exact .inr ⟨pauseEnd, hpause, le_refl _⟩
  · refine List.pairwise_append.mpr ⟨h.quiet, List.pairwise_singleton _ _, fun e he e' he' => ?_⟩
    intro pauseEnd granted hpause hgrant
    rw [List.mem_singleton.mp he'] at hgrant
    unfold ScanEntry.grantedAt at hgrant
    split_ifs at hgrant with htaken
    obtain ⟨now, hnow, hnone⟩ := call_granted htaken
    have hgranted : c.now = some granted := hgrant
    obtain rfl := Option.some.inj (hnow.symm.trans hgranted)
    -- a pause that stood would have refused the grant
    rcases h.pauses e he pauseEnd hpause with hover | ⟨standing, hstanding, hle⟩
    · exact hover.trans (hok now hnow)
    · by_contra hlate
      unfold ScanPacer.pausedAt at hnone
      rw [hstanding, Option.filter_some, if_pos (decide_eq_true (lt_of_lt_of_le (not_le.mp hlate) hle))] at hnone
      cases hnone

/-- **The scan pacer isolates the main scan.**  On a clock that does not go back: without the spare
takes every other call is answered the same, the grants of any minute are at most `perMinute`, the
capacity and one, and no grant comes before the end of a pause that stood. -/
theorem scan_pacer {p : ScanPacer} {now : ℚ} (hcreate : createScanPacer o now = .ok p)
    (calls : List ScanCall)
    (hcalls : RunOk (ScanRun.act o) ScanRun.Ok (ScanRun.start p now) calls) :
    let w := run (ScanRun.act o) (ScanRun.start p now) calls
    w.mainAnswers =
      (run (ScanRun.act o) (ScanRun.start p now) (calls.filter (fun c => !c.spare))).mainAnswers ∧
    (∀ start : ℚ, (w.grants.countP (fun t => decide (start ≤ t ∧ t ≤ start + 60000)) : ℚ) ≤
      o.perMinute + o.capacity + 1) ∧
    w.log.Pairwise (fun e e' => ∀ pauseEnd granted, e.pauseEnd = some pauseEnd →
      e'.grantedAt = some granted → pauseEnd ≤ granted) := by
  intro w
  have hv : o.Valid := (createScanPacer_ok hcreate).1
  have hinv : w.Inv o := hcalls.induction (ScanRun.Inv.start hcreate) (fun _ _ hok h => h.act hv hok)
  refine ⟨mainAnswers_run hv calls hcalls (.refl _ _ _) (le_refl _) rfl, fun start => ?_, hinv.quiet⟩
  have hwindow := hinv.bucket.windows start (start + 60000) (by linarith)
  rw [add_sub_cancel_left] at hwindow
  refine hwindow.trans (le_of_eq ?_)
  ring

end Runs

/-- Sixty a minute, two at once. -/
def scanSample : ScanPacerOptions where
  perMinute := 60
  capacity := 2
  backoffMinMs := 1000
  backoffMaxMs := 4000

/-- A main take, the overflow's token at two seconds, and a pause that refuses. -/
def scanCalls : List ScanCall :=
  [.tryTake 0, .tryTakeSpare 2000, .onRateLimited none 2000, .tryTake 2500, .tryTake 3000]

theorem scan_pacer_spare :
    let w := run (ScanRun.act scanSample)
      (ScanRun.start { tokens := 2, overflow := 0, refilledAt := 0, pauseEnd := none, backoffs := 0 } 0)
        scanCalls
    w.grants = [0, 2000, 3000] ∧
      (w.grants.countP (fun t => decide ((0 : ℚ) ≤ t ∧ t ≤ 0 + 60000)) : ℚ) ≤ 60 + 2 + 1 := by
  have hcalls : RunOk (ScanRun.act scanSample) ScanRun.Ok
      (ScanRun.start { tokens := 2, overflow := 0, refilledAt := 0, pauseEnd := none, backoffs := 0 } 0)
      scanCalls := by
    refine ⟨?_, ?_, ?_, ?_, ?_, trivial⟩ <;> intro now hnow <;> cases hnow
    · show (0 : ℚ) ≤ 0
      norm_num
    · show (0 : ℚ) ≤ 2000
      norm_num
    · show (2000 : ℚ) ≤ 2000
      norm_num
    · show (2000 : ℚ) ≤ 2500
      norm_num
    · show (2500 : ℚ) ≤ 3000
      norm_num
  have hcreate : createScanPacer scanSample 0 =
      .ok { tokens := 2, overflow := 0, refilledAt := 0, pauseEnd := none, backoffs := 0 } :=
    if_pos (by decide +kernel)
  exact ⟨by decide +kernel, (scan_pacer hcreate scanCalls hcalls).2.1 0⟩

end Binarius
