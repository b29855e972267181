import Mathlib.Tactic
import Binarius.Lib.Runs

/-!
# Shared.FetchDeadline — a deadline that holds when the call ignores its signal (packages/shared: fetch-deadline.ts)

Calls run side by side and share the counter of the abandoned.  What happens to a call, in any order: it is
made, its run settles, the caller's signal aborts, its timer fires, its grace timer fires.  A run that throws
settles with the error; a run settles at most once, or never; a signal aborts at most once.

* `Phase`: where a call is, its purpose apart from its flags and timers.
* `callStep_matches`: **every event moves the call as its phase, and the counter by what it abandons**.
* `withinDeadline_settles`: **each caller is answered at most once, by the run or by the first cut; the
  counter is the number of abandoned calls; the hooks are called at most once, in their order**.
-/

namespace Binarius

open Lib

namespace FetchDeadline

/-- Our timer, or the caller's signal. -/
inductive DeadlineKind
  | timeout
  | aborted
  deriving DecidableEq, Repr

variable {V E : Type}

/-- How a run settles. -/
inductive Outcome (V E : Type)
  | value (v : V)
  | error (e : E)

/-- What `resolve` and `reject` are called with. -/
inductive Answer (V E : Type)
  | own (outcome : Outcome V E)
  | deadline (code : DeadlineKind)

inductive HookCall (V E : Type)
  | onAbandoned (code : DeadlineKind)
  | onSettledLate (lateMs : ℚ) (outcome : Outcome V E)

/-- What a call was made with: a caller's signal or none, and its hooks. -/
structure CallOptions where
  callerSignal : Bool
  onAbandoned : Bool
  onSettledLate : Bool

/-- A call of `withinDeadline`: the caller's signal, the variables, the timers and the listener, and what the
caller and the hooks were told. -/
structure Call (V E : Type) where
  callerAborted : Bool
  made : Bool
  settled : Bool
  cut : Bool
  abandonedAt : Option ℚ
  timer : Bool
  listening : Bool
  deadlineAborted : Bool
  grace : Option DeadlineKind
  answers : List (Answer V E)
  hookCalls : List (HookCall V E)

inductive Event (V E : Type)
  | made
  | settles (outcome : Outcome V E)
  | callerAborts
  | timeout
  | grace

/-- Before the call. -/
def Call.fresh : Call V E where
  callerAborted := false
  made := false
  settled := false
  cut := false
  abandonedAt := none
  timer := false
  listening := false
  deadlineAborted := false
  grace := none
  answers := []
  hookCalls := []

def release (c : Call V E) : Call V E := { c with timer := false, listening := false }

def cutOff (kind : DeadlineKind) (c : Call V E) : Call V E :=
  if c.settled || c.cut then c
  else
    let c := release { c with cut := true }
    { c with deadlineAborted := c.deadlineAborted || decide (kind = .timeout), grace := some kind }

/-- The grace timer's callback: the call and the counter after it. -/
def graceFires (options : CallOptions) (now : ℚ) (kind : DeadlineKind) (c : Call V E) (abandoned : ℤ) :
    Call V E × ℤ :=
  if c.settled then (c, abandoned)
  else
    ({ c with
        abandonedAt := some now
        answers := c.answers ++ [.deadline kind]
        hookCalls := c.hookCalls ++ if options.onAbandoned then [.onAbandoned kind] else [] },
      abandoned + 1)

def settle (options : CallOptions) (now : ℚ) (outcome : Outcome V E) (c : Call V E) (abandoned : ℤ) :
    Call V E × ℤ :=
  let c := { c with settled := true }
  match c.abandonedAt with
  | none =>
    let c := release c
    ({ c with answers := c.answers ++ [.own outcome] }, abandoned)
  | some abandonedAt =>
    let lateMs := max 0 (now - abandonedAt)
    ({ c with hookCalls := c.hookCalls ++ if options.onSettledLate then [.onSettledLate lateMs outcome] else [] },
      abandoned - 1)

/-- One event of one call at the clock's moment.  What cannot happen leaves the call as it is: a timer that is
not armed, a listener that is not there, a second abort or a second settlement. -/
def callStep (options : CallOptions) (now : ℚ) (c : Call V E) (abandoned : ℤ) : Event V E → Call V E × ℤ
  | .made =>
    if c.made then (c, abandoned)
    else
      let c := { c with made := true, timer := true, listening := options.callerSignal }
      -- already aborted before the call: no abort event will come
      (if options.callerSignal && c.callerAborted then cutOff .aborted c else c, abandoned)
  | .settles outcome =>
    if c.made && !c.settled then settle options now outcome c abandoned else (c, abandoned)
  | .callerAborts =>
    if !options.callerSignal || c.callerAborted then (c, abandoned)
    else
      let c := { c with callerAborted := true }
      (if c.listening then cutOff .aborted { c with listening := false } else c, abandoned)
  | .timeout =>
    (if c.timer then cutOff .timeout { c with timer := false } else c, abandoned)
  | .grace =>
    match c.grace with
    | none => (c, abandoned)
    | some kind => graceFires options now kind { c with grace := none } abandoned

/-! ## The calls of a process -/

/-- The process-wide counter and every call. -/
structure Process (V E : Type) where
  abandoned : ℤ
  calls : ℕ → Call V E

/-- An event of one call, at a moment. -/
structure Happens (V E : Type) where
  call : ℕ
  now : ℚ
  event : Event V E

def Process.fresh : Process V E where
  abandoned := 0
  calls _ := Call.fresh

def processStep (options : ℕ → CallOptions) (p : Process V E) (h : Happens V E) : Process V E :=
  let next := callStep (options h.call) h.now (p.calls h.call) p.abandoned h.event
  { abandoned := next.2, calls := Function.update p.calls h.call next.1 }

/-- The events of one call, in order. -/
def eventsOf (i : ℕ) (hs : List (Happens V E)) : List (Event V E) :=
  (hs.filter (fun h => h.call = i)).map Happens.event

/-! ## Phases -/

/-- Where a call is. -/
inductive Phase (V E : Type)
  /-- Not made yet; the caller's signal may have aborted. -/
  | idle (aborted : Bool)
  | running
  /-- Cut, its grace timer armed. -/
  | cutBy (kind : DeadlineKind)
  /-- The run settled before the grace timer fired. -/
  | passed (outcome : Outcome V E)
  /-- The caller has its `DeadlineError`, the run is pending. -/
  | abandoned (kind : DeadlineKind)
  /-- An abandoned run that settled. -/
  | late (kind : DeadlineKind)

def Phase.next (callerSignal : Bool) : Phase V E → Event V E → Phase V E
  | .idle aborted, .made => if aborted then .cutBy .aborted else .running
  | .idle aborted, .callerAborts => .idle (aborted || callerSignal)
  | .running, .settles outcome => .passed outcome
  | .running, .timeout => .cutBy .timeout
  | .running, .callerAborts => if callerSignal then .cutBy .aborted else .running
  | .cutBy _, .settles outcome => .passed outcome
  | .cutBy kind, .grace => .abandoned kind
  | .abandoned kind, .settles _ => .late kind
  | phase, _ => phase

/-- One for an abandoned call whose run has not settled. -/
def Phase.pending : Phase V E → ℤ
  | .abandoned _ => 1
  | _ => 0

/-- The hooks called so far: the first at the abandonment, the second at the late settlement. -/
def hooksOf (options : CallOptions) (kind : DeadlineKind) (late : Option (ℚ × Outcome V E)) :
    List (HookCall V E) :=
  (if options.onAbandoned then [.onAbandoned kind] else []) ++
    match late with
    | none => []
    | some (lateMs, outcome) => if options.onSettledLate then [.onSettledLate lateMs outcome] else []

/-- The flags, the timers and what was told, in each phase. -/
def Matches (options : CallOptions) (c : Call V E) : Phase V E → Prop
  | .idle aborted => c.made = false ∧ c.settled = false ∧ c.cut = false ∧ c.abandonedAt = none ∧
      c.timer = false ∧ c.listening = false ∧ c.grace = none ∧ c.answers = [] ∧ c.hookCalls = [] ∧
      c.callerAborted = aborted ∧ (aborted = true → options.callerSignal = true)
  | .running => c.made = true ∧ c.settled = false ∧ c.cut = false ∧ c.abandonedAt = none ∧ c.timer = true ∧
      c.listening = options.callerSignal ∧ c.grace = none ∧ c.answers = [] ∧ c.hookCalls = [] ∧
      c.callerAborted = false
  | .cutBy kind => c.made = true ∧ c.settled = false ∧ c.cut = true ∧ c.abandonedAt = none ∧ c.timer = false ∧
      c.listening = false ∧ c.grace = some kind ∧ c.answers = [] ∧ c.hookCalls = []
  | .passed outcome => c.made = true ∧ c.settled = true ∧ c.abandonedAt = none ∧ c.timer = false ∧
      c.listening = false ∧ c.answers = [.own outcome] ∧ c.hookCalls = []
  | .abandoned kind => c.made = true ∧ c.settled = false ∧ c.cut = true ∧ c.timer = false ∧
      c.listening = false ∧ c.grace = none ∧ c.answers = [.deadline kind] ∧ c.abandonedAt.isSome = true ∧
      c.hookCalls = hooksOf options kind none
  | .late kind => c.made = true ∧ c.settled = true ∧ c.timer = false ∧ c.listening = false ∧ c.grace = none ∧
      c.answers = [.deadline kind] ∧ c.abandonedAt.isSome = true ∧
      ∃ lateMs outcome, 0 ≤ lateMs ∧ c.hookCalls = hooksOf options kind (some (lateMs, outcome))

/-! ## One event -/

/-- The call moves as its phase, and the counter by what the phase abandons. -/
def Moves (options : CallOptions) (p p' : Phase V E) (abandoned : ℤ) (r : Call V E × ℤ) : Prop :=
  Matches options r.1 p' ∧ r.2 = abandoned + (p'.pending - p.pending)

section Step

variable {options : CallOptions} {c : Call V E} {now : ℚ} {abandoned : ℤ}

/-- An event that cannot happen. -/
theorem moves_stay {p : Phase V E} {e : Event V E} (h : Matches options c p)
    (hstep : callStep options now c abandoned e = (c, abandoned)) (hnext : p.next options.callerSignal e = p) :
    Moves options p (p.next options.callerSignal e) abandoned (callStep options now c abandoned e) := by
  unfold Moves
  rw [hnext, hstep, sub_self, add_zero]
  exact ⟨h, rfl⟩

/-- The caller's abort of a call that no longer listens changes the signal only. -/
theorem callerAborts_deaf (hlistening : c.listening = false) :
    callStep options now c abandoned .callerAborts =
      ({ c with callerAborted := c.callerAborted || options.callerSignal }, abandoned) := by
  unfold callStep
  cases options.callerSignal with
  | false => simp
  | true =>
    cases haborted : c.callerAborted with
    | true => simp [← haborted]
    | false => simp [hlistening]

theorem idle_moves {aborted : Bool} (h : Matches options c (.idle aborted)) (e : Event V E) :
    Moves options (.idle aborted) (Phase.next options.callerSignal (.idle aborted) e) abandoned
      (callStep options now c abandoned e) := by
  have hidle := h
  obtain ⟨hmade, hsettled, hcut, hat, htimer, hlistening, hgrace, hanswers, hhooks, haborted, hcaller⟩ := h
  cases e with
  | made =>
    cases aborted with
    | true => simp [Moves, callStep, Phase.next, Matches, Phase.pending, cutOff, release, *]
    | false => simp [Moves, callStep, Phase.next, Matches, Phase.pending, *]
  | settles outcome => exact moves_stay hidle (by simp [callStep, hmade]) rfl
  | callerAborts =>
    unfold Moves
    rw [callerAborts_deaf hlistening]
    simp [Phase.next, Matches, Phase.pending, *]
    exact fun h => h.elim hcaller id
  | timeout => exact moves_stay hidle (by simp [callStep, htimer]) rfl
  | grace => exact moves_stay hidle (by simp [callStep, hgrace]) rfl

theorem running_moves (h : Matches options c .running) (e : Event V E) :
    Moves options .running (Phase.next options.callerSignal .running e) abandoned
      (callStep options now c abandoned e) := by
  have hrunning := h
  obtain ⟨hmade, hsettled, hcut, hat, htimer, hlistening, hgrace, hanswers, hhooks, hcaller⟩ := h
  cases e with
  | made => exact moves_stay hrunning (by simp [callStep, hmade]) rfl
  | settles outcome => simp [Moves, callStep, Phase.next, Matches, Phase.pending, settle, release, *]
  | callerAborts =>
    cases hsignal : options.callerSignal with
    | true => simp [Moves, callStep, Phase.next, Matches, Phase.pending, cutOff, release, *]
    | false => simp [Moves, callStep, Phase.next, Matches, Phase.pending, *]
  | timeout => simp [Moves, callStep, Phase.next, Matches, Phase.pending, cutOff, release, *]
  | grace => exact moves_stay hrunning (by simp [callStep, hgrace]) rfl

theorem cutBy_moves {kind : DeadlineKind} (h : Matches options c (.cutBy kind)) (e : Event V E) :
    Moves options (.cutBy kind) (Phase.next options.callerSignal (.cutBy kind) e) abandoned
      (callStep options now c abandoned e) := by
  have hcutBy := h
  obtain ⟨hmade, hsettled, hcut, hat, htimer, hlistening, hgrace, hanswers, hhooks⟩ := h
  cases e with
  | made => exact moves_stay hcutBy (by simp [callStep, hmade]) rfl
  | settles outcome => simp [Moves, callStep, Phase.next, Matches, Phase.pending, settle, release, *]
  | callerAborts =>
    unfold Moves
    rw [callerAborts_deaf hlistening]
    simp [Phase.next, Matches, *]
  | timeout => exact moves_stay hcutBy (by simp [callStep, htimer]) rfl
  | grace => simp [Moves, callStep, Phase.next, Matches, Phase.pending, graceFires, hooksOf, *]

/-- A settled call is told nothing more, whatever still fires. -/
theorem passed_moves {outcome : Outcome V E} (h : Matches options c (.passed outcome)) (e : Event V E) :
    Moves options (.passed outcome) (Phase.next options.callerSignal (.passed outcome) e) abandoned
      (callStep options now c abandoned e) := by
  have hpassed := h
  obtain ⟨hmade, hsettled, hat, htimer, hlistening, hanswers, hhooks⟩ := h
  cases e with
  | made => exact moves_stay hpassed (by simp [callStep, hmade]) rfl
  | settles outcome' => exact moves_stay hpassed (by simp [callStep, hsettled]) rfl
  | callerAborts =>
    unfold Moves
    rw [callerAborts_deaf hlistening]
    simp [Phase.next, Matches, *]
  | timeout => exact moves_stay hpassed (by simp [callStep, htimer]) rfl
  | grace =>
    cases hgrace : c.grace with
    | none => exact moves_stay hpassed (by simp [callStep, hgrace]) rfl
    | some kind => simp [Moves, callStep, Phase.next, Matches, graceFires, *]

theorem abandoned_moves {kind : DeadlineKind} (h : Matches options c (.abandoned kind)) (e : Event V E) :
    Moves options (.abandoned kind) (Phase.next options.callerSignal (.abandoned kind) e) abandoned
      (callStep options now c abandoned e) := by
  have habandoned := h
  obtain ⟨hmade, hsettled, hcut, htimer, hlistening, hgrace, hanswers, hat, hhooks⟩ := h
  cases e with
  | made => exact moves_stay habandoned (by simp [callStep, hmade]) rfl
  | settles outcome =>
    obtain ⟨abandonedAt, hsome⟩ := Option.isSome_iff_exists.mp hat
    have hstep : callStep options now c abandoned (.settles outcome) =
        ({ c with
            settled := true
            hookCalls := c.hookCalls ++
              if options.onSettledLate then [.onSettledLate (max 0 (now - abandonedAt)) outcome] else [] },
          abandoned - 1) := by
      simp [callStep, settle, hmade, hsettled, hsome]
    unfold Moves
    rw [hstep]
    refine ⟨⟨hmade, rfl, htimer, hlistening, hgrace, hanswers, hat, max 0 (now - abandonedAt), outcome,
      le_max_left _ _, ?_⟩, rfl⟩
    simp [hhooks, hooksOf]
  | callerAborts =>
    unfold Moves
    rw [callerAborts_deaf hlistening]
    simp [Phase.next, Matches, *]
  | timeout => exact moves_stay habandoned (by simp [callStep, htimer]) rfl
  | grace => exact moves_stay habandoned (by simp [callStep, hgrace]) rfl

theorem late_moves {kind : DeadlineKind} (h : Matches options c (.late kind)) (e : Event V E) :
    Moves options (.late kind) (Phase.next options.callerSignal (.late kind) e) abandoned
      (callStep options now c abandoned e) := by
  have hlate := h
  obtain ⟨hmade, hsettled, htimer, hlistening, hgrace, hanswers, hat, hhooks⟩ := h
  cases e with
  | made => exact moves_stay hlate (by simp [callStep, hmade]) rfl
  | settles outcome => exact moves_stay hlate (by simp [callStep, hsettled]) rfl
  | callerAborts =>
    unfold Moves
    rw [callerAborts_deaf hlistening]
    refine ⟨?_, by simp [Phase.next]⟩
    exact ⟨hmade, hsettled, htimer, hlistening, hgrace, hanswers, hat, hhooks⟩
  | timeout => exact moves_stay hlate (by simp [callStep, htimer]) rfl
  | grace => exact moves_stay hlate (by simp [callStep, hgrace]) rfl

/-- **Every event moves a call as its phase, and the counter by what it abandons.** -/
theorem callStep_matches {p : Phase V E} (h : Matches options c p) (e : Event V E) :
    Moves options p (p.next options.callerSignal e) abandoned (callStep options now c abandoned e) := by
  cases p with
  | idle aborted => exact idle_moves h e
  | running => exact running_moves h e
  | cutBy kind => exact cutBy_moves h e
  | passed outcome => exact passed_moves h e
  | abandoned kind => exact abandoned_moves h e
  | late kind => exact late_moves h e

end Step

/-! ## Every run of the process -/

/-- The phase of a call after its events. -/
def phaseOf (callerSignal : Bool) (es : List (Event V E)) : Phase V E :=
  es.foldl (Phase.next callerSignal) (.idle false)

theorem phaseOf_snoc (callerSignal : Bool) (es : List (Event V E)) (e : Event V E) :
    phaseOf callerSignal (es ++ [e]) = (phaseOf callerSignal es).next callerSignal e := by
  simp [phaseOf, List.foldl_append]

theorem eventsOf_snoc (i : ℕ) (hs : List (Happens V E)) (h : Happens V E) :
    eventsOf i (hs ++ [h]) = if h.call = i then eventsOf i hs ++ [h.event] else eventsOf i hs := by
  unfold eventsOf
  rw [List.filter_append, List.map_append, List.filter_singleton]
  by_cases hi : h.call = i
  · simp [hi]
  · simp [hi]

variable (options : ℕ → CallOptions)

/-- The phase of a call of the process. -/
def phaseIn (hs : List (Happens V E)) (i : ℕ) : Phase V E :=
  phaseOf (options i).callerSignal (eventsOf i hs)

theorem phaseIn_snoc (hs : List (Happens V E)) (h : Happens V E) (i : ℕ) :
    phaseIn options (hs ++ [h]) i =
      if h.call = i then (phaseIn options hs i).next (options i).callerSignal h.event
      else phaseIn options hs i := by
  unfold phaseIn
  rw [eventsOf_snoc]
  split_ifs
  · exact phaseOf_snoc _ _ _
  · rfl

theorem matches_fresh (o : CallOptions) : Matches o (Call.fresh : Call V E) (.idle false) := by
  simp [Matches, Call.fresh]

/-- **After every run each call is as its phase, and the counter is the sum of what is pending.** -/
theorem run_matches (hs : List (Happens V E)) :
    (∀ i, Matches (options i) ((run (processStep options) Process.fresh hs).calls i) (phaseIn options hs i)) ∧
      ∀ ids : Finset ℕ, (∀ h ∈ hs, h.call ∈ ids) →
        (run (processStep options) Process.fresh hs).abandoned = ∑ i ∈ ids, (phaseIn options hs i).pending := by
  induction hs using List.reverseRecOn with
  | nil => exact ⟨fun i => matches_fresh (options i), fun ids _ => (Finset.sum_const_zero).symm⟩
  | append_singleton hs h ih =>
    obtain ⟨hcalls, hcounter⟩ := ih
    rw [run_snoc]
    generalize run (processStep options) Process.fresh hs = p at hcalls hcounter
    have hmoves : Moves (options h.call) (phaseIn options hs h.call)
        ((phaseIn options hs h.call).next (options h.call).callerSignal h.event) p.abandoned
        (callStep (options h.call) h.now (p.calls h.call) p.abandoned h.event) :=
      callStep_matches (hcalls h.call) h.event
    obtain ⟨hmatches, hdelta⟩ := hmoves
    constructor
    · intro i
      rw [phaseIn_snoc]
      unfold processStep
      by_cases hi : h.call = i
      · subst hi
        simpa using hmatches
      · simpa [hi, Function.update_of_ne (Ne.symm hi)] using hcalls i
    · intro ids hids
      have hmem : h.call ∈ ids := hids h (by simp)
      have hrest : ∑ i ∈ ids.erase h.call, (phaseIn options (hs ++ [h]) i).pending =
          ∑ i ∈ ids.erase h.call, (phaseIn options hs i).pending := by
        refine Finset.sum_congr rfl fun i hi => ?_
        rw [phaseIn_snoc, if_neg (Ne.symm (Finset.ne_of_mem_erase hi))]
      have hold := hcounter ids (fun h' hh => hids h' (List.mem_append_left _ hh))
      rw [← Finset.add_sum_erase ids _ hmem] at hold
      rw [← Finset.add_sum_erase ids _ hmem, hrest, phaseIn_snoc, if_pos rfl]
      have hstep : (processStep options p h).abandoned =
          (callStep (options h.call) h.now (p.calls h.call) p.abandoned h.event).2 := rfl
      rw [hstep, hdelta, hold]
      ring

/-! ## What a call's events say -/

def Event.isMade : Event V E → Bool
  | .made => true
  | _ => false

def Event.isSettles : Event V E → Bool
  | .settles _ => true
  | _ => false

def Event.isAbort : Event V E → Bool
  | .callerAborts => true
  | _ => false

/-- The cut an event makes of a call that is running. -/
def Event.cut (callerSignal : Bool) : Event V E → Option DeadlineKind
  | .timeout => some .timeout
  | .callerAborts => if callerSignal then some .aborted else none
  | _ => none

/-- The cut that came first: the caller's abort before the call, or the first behind it. -/
def firstCut (callerSignal : Bool) (before after : List (Event V E)) : Option DeadlineKind :=
  if callerSignal && before.any Event.isAbort then some .aborted else after.findSome? (Event.cut callerSignal)

/-- The grace timer fired: its event came behind a cut. -/
def GraceFired (callerSignal : Bool) (before after : List (Event V E)) : Prop :=
  ∃ a b, after = a ++ .grace :: b ∧ (firstCut callerSignal before a).isSome = true

theorem firstCut_snoc (callerSignal : Bool) (before after : List (Event V E)) (e : Event V E) :
    firstCut callerSignal before (after ++ [e]) =
      (firstCut callerSignal before after).or (e.cut callerSignal) := by
  unfold firstCut
  split_ifs
  · rfl
  · rw [List.findSome?_append]
    simp

theorem graceFired_snoc {callerSignal : Bool} {before after : List (Event V E)} {e : Event V E} :
    GraceFired callerSignal before (after ++ [e]) ↔
      GraceFired callerSignal before after ∨
        (e = .grace ∧ (firstCut callerSignal before after).isSome = true) := by
  constructor
  · rintro ⟨a, b, heq, hcut⟩
    rcases List.eq_nil_or_concat b with rfl | ⟨b', x, rfl⟩
    · obtain ⟨rfl, hlast⟩ := List.append_inj' heq rfl
      exact Or.inr ⟨List.singleton_inj.mp hlast, hcut⟩
    · left
      refine ⟨a, b', ?_, hcut⟩
      have hassoc : after ++ [e] = (a ++ .grace :: b') ++ [x] := by simpa using heq
      exact (List.append_inj' hassoc rfl).1
  · rintro (⟨a, b, heq, hcut⟩ | ⟨rfl, hcut⟩)
    · exact ⟨a, b ++ [e], by rw [heq]; simp, hcut⟩
    · exact ⟨after, [], rfl, hcut⟩

theorem firstCut_append {callerSignal : Bool} {before after : List (Event V E)} {kind : DeadlineKind}
    (h : firstCut callerSignal before after = some kind) (rest : List (Event V E)) :
    firstCut callerSignal before (after ++ rest) = some kind := by
  unfold firstCut at h ⊢
  split_ifs at h ⊢ with haborted
  · exact h
  · rw [List.findSome?_append, h, Option.some_or]

theorem GraceFired.append {callerSignal : Bool} {before after : List (Event V E)}
    (h : GraceFired callerSignal before after) (rest : List (Event V E)) :
    GraceFired callerSignal before (after ++ rest) := by
  obtain ⟨a, b, rfl, hcut⟩ := h
  exact ⟨a, b ++ rest, by simp, hcut⟩

theorem phaseOf_before {callerSignal : Bool} {before : List (Event V E)} (h : before.any Event.isMade = false) :
    phaseOf callerSignal before = .idle (callerSignal && before.any Event.isAbort) := by
  induction before using List.reverseRecOn with
  | nil => simp [phaseOf]
  | append_singleton before e ih =>
    rw [List.any_append, Bool.or_eq_false_iff] at h
    rw [phaseOf_snoc, ih h.1, List.any_append]
    cases e with
    | made => simp [Event.isMade] at h
    | settles outcome => simp [Phase.next, Event.isAbort]
    | callerAborts => cases callerSignal <;> simp [Phase.next, Event.isAbort]
    | timeout => simp [Phase.next, Event.isAbort]
    | grace => simp [Phase.next, Event.isAbort]

/-- Where a call is whose run has not settled. -/
structure Unsettled (callerSignal : Bool) (before after : List (Event V E)) (p : Phase V E) : Prop where
  running : firstCut callerSignal before after = none → p = .running
  cut : ∀ kind, firstCut callerSignal before after = some kind → ¬ GraceFired callerSignal before after →
    p = .cutBy kind
  abandoned : ∀ kind, firstCut callerSignal before after = some kind → GraceFired callerSignal before after →
    p = .abandoned kind

theorem not_graceFired_nil (callerSignal : Bool) (before : List (Event V E)) :
    ¬ GraceFired callerSignal before [] := by
  rintro ⟨a, b, heq, -⟩
  simp at heq

/-- No grace timer fires before a cut. -/
theorem GraceFired.cut {callerSignal : Bool} {before after : List (Event V E)}
    (h : GraceFired callerSignal before after) : (firstCut callerSignal before after).isSome = true := by
  induction after using List.reverseRecOn with
  | nil => exact absurd h (not_graceFired_nil callerSignal before)
  | append_singleton after e ih =>
    rw [firstCut_snoc]
    rcases graceFired_snoc.mp h with hold | ⟨-, hcut⟩
    · obtain ⟨kind, hkind⟩ := Option.isSome_iff_exists.mp (ih hold)
      simp [hkind]
    · obtain ⟨kind, hkind⟩ := Option.isSome_iff_exists.mp hcut
      simp [hkind]

theorem next_running_none {callerSignal : Bool} {e : Event V E} (hcut : e.cut callerSignal = none)
    (hsettles : e.isSettles = false) : Phase.next callerSignal .running e = .running := by
  cases e with
  | made => rfl
  | settles outcome => cases hsettles
  | callerAborts =>
    cases callerSignal with
    | true => cases hcut
    | false => rfl
  | timeout => cases hcut
  | grace => rfl

theorem next_running_some {callerSignal : Bool} {e : Event V E} {kind : DeadlineKind}
    (hcut : e.cut callerSignal = some kind) : Phase.next callerSignal .running e = .cutBy kind := by
  cases e with
  | made => cases hcut
  | settles outcome => cases hcut
  | callerAborts =>
    cases callerSignal with
    | true => cases hcut; rfl
    | false => cases hcut
  | timeout => cases hcut; rfl
  | grace => cases hcut

theorem next_cutBy {callerSignal : Bool} {e : Event V E} {kind : DeadlineKind} (hsettles : e.isSettles = false)
    (hgrace : e ≠ .grace) : Phase.next callerSignal (.cutBy kind) e = .cutBy kind := by
  cases e with
  | made => rfl
  | settles outcome => cases hsettles
  | callerAborts => rfl
  | timeout => rfl
  | grace => exact absurd rfl hgrace

theorem next_abandoned {callerSignal : Bool} {e : Event V E} {kind : DeadlineKind}
    (hsettles : e.isSettles = false) : Phase.next callerSignal (.abandoned kind) e = .abandoned kind := by
  cases e with
  | settles outcome => cases hsettles
  | made => rfl
  | callerAborts => rfl
  | timeout => rfl
  | grace => rfl

theorem foldl_next_passed (callerSignal : Bool) (outcome : Outcome V E) (es : List (Event V E)) :
    es.foldl (Phase.next callerSignal) (.passed outcome) = .passed outcome := by
  induction es with
  | nil => rfl
  | cons e es ih => cases e <;> exact ih

theorem foldl_next_late (callerSignal : Bool) (kind : DeadlineKind) (es : List (Event V E)) :
    es.foldl (Phase.next callerSignal) (.late kind) = .late kind := by
  induction es with
  | nil => rfl
  | cons e es ih => cases e <;> exact ih

/-- **Where a call is while its run has not settled**: cut by the first cut, and abandoned once its grace timer
has fired. -/
theorem phaseOf_unsettled (callerSignal : Bool) {before after : List (Event V E)}
    (hbefore : before.any Event.isMade = false) (hafter : after.any Event.isSettles = false) :
    Unsettled callerSignal before after (phaseOf callerSignal (before ++ .made :: after)) := by
  induction after using List.reverseRecOn with
  | nil =>
    have hphase : phaseOf callerSignal (before ++ [.made]) =
        if callerSignal && before.any Event.isAbort then .cutBy .aborted else .running := by
      rw [phaseOf_snoc, phaseOf_before hbefore]
      rfl
    rw [hphase]
    refine ⟨fun h => ?_, fun kind h _ => ?_, fun kind _ h => absurd h (not_graceFired_nil callerSignal before)⟩
    · unfold firstCut at h
      split_ifs at h ⊢
      rfl
    · unfold firstCut at h
      split_ifs at h ⊢
      · rw [Option.some.inj h]
      · cases h
  | append_singleton after e ih =>
    rw [List.any_append, Bool.or_eq_false_iff] at hafter
    have hold := ih hafter.1
    have hassoc : before ++ .made :: (after ++ [e]) = (before ++ .made :: after) ++ [e] := by simp
    rw [hassoc, phaseOf_snoc]
    generalize phaseOf callerSignal (before ++ .made :: after) = p at hold
    have hsettles : e.isSettles = false := by simpa using hafter.2
    cases hcut : firstCut callerSignal before after with
    | none =>
      rw [hold.running hcut]
      have hnot : ¬ GraceFired callerSignal before (after ++ [e]) := by
        rw [graceFired_snoc, hcut]
        rintro (hfired | ⟨-, hsome⟩)
        · have hsome := hfired.cut
          rw [hcut] at hsome
          cases hsome
        · cases hsome
      refine ⟨fun h => ?_, fun kind h _ => ?_, fun kind _ h => absurd h hnot⟩
      · rw [firstCut_snoc, hcut, Option.none_or] at h
        exact next_running_none h hsettles
      · rw [firstCut_snoc, hcut, Option.none_or] at h
        exact next_running_some h
    | some first =>
      have hfirst : firstCut callerSignal before (after ++ [e]) = some first := by
        rw [firstCut_snoc, hcut, Option.some_or]
      by_cases hfired : GraceFired callerSignal before after
      · rw [hold.abandoned first hcut hfired]
        have hfired' : GraceFired callerSignal before (after ++ [e]) := graceFired_snoc.mpr (Or.inl hfired)
        refine ⟨fun h => ?_, fun kind _ h => absurd hfired' h, fun kind h _ => ?_⟩
        · rw [hfirst] at h
          cases h
        · rw [hfirst] at h
          rw [← Option.some.inj h]
          exact next_abandoned hsettles
      · rw [hold.cut first hcut hfired]
        refine ⟨fun h => ?_, fun kind h hnot => ?_, fun kind h hfired' => ?_⟩
        · rw [hfirst] at h
          cases h
        · rw [hfirst] at h
          rw [← Option.some.inj h]
          refine next_cutBy hsettles ?_
          rintro rfl
          exact hnot (graceFired_snoc.mpr (Or.inr ⟨rfl, by rw [hcut]; rfl⟩))
        · rw [hfirst] at h
          rcases graceFired_snoc.mp hfired' with hold' | ⟨rfl, -⟩
          · exact absurd hold' hfired
          · rw [← Option.some.inj h]
            rfl

/-! ## The answers -/

/-- **A settlement ends the race**: behind it the call has passed it on, or it is late. -/
theorem phaseOf_settled {callerSignal : Bool} {before after rest : List (Event V E)} (outcome : Outcome V E)
    (hbefore : before.any Event.isMade = false) (hafter : after.any Event.isSettles = false) :
    (¬ GraceFired callerSignal before after →
        phaseOf callerSignal (before ++ .made :: (after ++ .settles outcome :: rest)) = .passed outcome) ∧
      ∀ kind, firstCut callerSignal before after = some kind → GraceFired callerSignal before after →
        phaseOf callerSignal (before ++ .made :: (after ++ .settles outcome :: rest)) = .late kind := by
  have hunsettled := phaseOf_unsettled callerSignal hbefore hafter
  have hsplit : phaseOf callerSignal (before ++ .made :: (after ++ .settles outcome :: rest)) =
      rest.foldl (Phase.next callerSignal)
        ((phaseOf callerSignal (before ++ .made :: after)).next callerSignal (.settles outcome)) := by
    have hassoc : before ++ .made :: (after ++ .settles outcome :: rest) =
        (before ++ .made :: after) ++ .settles outcome :: rest := by simp
    rw [hassoc]
    unfold phaseOf
    rw [List.foldl_append, List.foldl_cons]
  rw [hsplit]
  constructor
  · intro hnot
    have hnext : (phaseOf callerSignal (before ++ .made :: after)).next callerSignal (.settles outcome) =
        .passed outcome := by
      cases hcut : firstCut callerSignal before after with
      | none => rw [hunsettled.running hcut]; rfl
      | some kind => rw [hunsettled.cut kind hcut hnot]; rfl
    rw [hnext]
    exact foldl_next_passed callerSignal outcome rest
  · intro kind hcut hfired
    rw [hunsettled.abandoned kind hcut hfired]
    exact foldl_next_late callerSignal kind rest

/-- The first settlement of a list of events. -/
theorem split_settles {es : List (Event V E)} (h : es.any Event.isSettles = true) :
    ∃ a outcome b, es = a ++ .settles outcome :: b ∧ a.any Event.isSettles = false := by
  induction es with
  | nil => cases h
  | cons e es ih =>
    cases hsettles : e.isSettles with
    | true =>
      cases e with
      | settles outcome => exact ⟨[], outcome, es, rfl, rfl⟩
      | made => cases hsettles
      | callerAborts => cases hsettles
      | timeout => cases hsettles
      | grace => cases hsettles
    | false =>
      rw [List.any_cons, hsettles, Bool.false_or] at h
      obtain ⟨a, outcome, b, rfl, ha⟩ := ih h
      exact ⟨e :: a, outcome, b, rfl, by rw [List.any_cons, hsettles, ha]; rfl⟩

def HookCall.isOnAbandoned : HookCall V E → Bool
  | .onAbandoned _ => true
  | .onSettledLate _ _ => false

def HookCall.isOnSettledLate : HookCall V E → Bool
  | .onAbandoned _ => false
  | .onSettledLate _ _ => true

/-- Each hook at most once, the second behind the first. -/
structure HooksInOrder (hooks : List (HookCall V E)) : Prop where
  abandonedOnce : hooks.countP HookCall.isOnAbandoned ≤ 1
  lateOnce : hooks.countP HookCall.isOnSettledLate ≤ 1
  order : hooks.Pairwise (fun x y => x.isOnSettledLate = true → y.isOnAbandoned = false)

/-- The caller was answered with a `DeadlineError` and the run has not settled. -/
def awaited (c : Call V E) : Bool :=
  !c.settled && c.answers.any fun a => match a with
    | .deadline _ => true
    | .own _ => false

section Told

variable {o : CallOptions} {c : Call V E} {p : Phase V E}

theorem hooksOf_inOrder (o : CallOptions) (kind : DeadlineKind) (late : Option (ℚ × Outcome V E)) :
    HooksInOrder (hooksOf o kind late) := by
  unfold hooksOf
  cases o.onAbandoned <;> cases o.onSettledLate <;> cases late <;>
    exact ⟨by simp [HookCall.isOnAbandoned, List.countP_cons],
      by simp [HookCall.isOnSettledLate, List.countP_cons], by simp [HookCall.isOnAbandoned]⟩

theorem hooksInOrder_nil : HooksInOrder ([] : List (HookCall V E)) := ⟨by simp, by simp, List.Pairwise.nil⟩

/-- Each caller is answered at most once. -/
theorem Matches.answers_length (h : Matches o c p) : c.answers.length ≤ 1 := by
  cases p with
  | idle aborted => obtain ⟨-, -, -, -, -, -, -, hanswers, -⟩ := h; simp [hanswers]
  | running => obtain ⟨-, -, -, -, -, -, -, hanswers, -⟩ := h; simp [hanswers]
  | cutBy kind => obtain ⟨-, -, -, -, -, -, -, hanswers, -⟩ := h; simp [hanswers]
  | passed outcome => obtain ⟨-, -, -, -, -, hanswers, -⟩ := h; simp [hanswers]
  | abandoned kind => obtain ⟨-, -, -, -, -, -, hanswers, -⟩ := h; simp [hanswers]
  | late kind => obtain ⟨-, -, -, -, -, hanswers, -⟩ := h; simp [hanswers]

theorem Matches.hooks (h : Matches o c p) : HooksInOrder c.hookCalls := by
  cases p with
  | idle aborted => obtain ⟨-, -, -, -, -, -, -, -, hhooks, -⟩ := h; rw [hhooks]; exact hooksInOrder_nil
  | running => obtain ⟨-, -, -, -, -, -, -, -, hhooks, -⟩ := h; rw [hhooks]; exact hooksInOrder_nil
  | cutBy kind => obtain ⟨-, -, -, -, -, -, -, -, hhooks⟩ := h; rw [hhooks]; exact hooksInOrder_nil
  | passed outcome => obtain ⟨-, -, -, -, -, -, hhooks⟩ := h; rw [hhooks]; exact hooksInOrder_nil
  | abandoned kind => obtain ⟨-, -, -, -, -, -, -, -, hhooks⟩ := h; rw [hhooks]; exact hooksOf_inOrder _ _ _
  | late kind =>
    obtain ⟨-, -, -, -, -, -, -, lateMs, outcome, -, hhooks⟩ := h
    rw [hhooks]
    exact hooksOf_inOrder _ _ _

/-- What is pending is what is awaited. -/
theorem Matches.pending (h : Matches o c p) : p.pending = if awaited c then 1 else 0 := by
  unfold awaited
  cases p with
  | idle aborted => obtain ⟨-, -, -, -, -, -, -, hanswers, -⟩ := h; simp [hanswers, Phase.pending]
  | running => obtain ⟨-, -, -, -, -, -, -, hanswers, -⟩ := h; simp [hanswers, Phase.pending]
  | cutBy kind => obtain ⟨-, -, -, -, -, -, -, hanswers, -⟩ := h; simp [hanswers, Phase.pending]
  | passed outcome => obtain ⟨-, hsettled, -⟩ := h; simp [hsettled, Phase.pending]
  | abandoned kind => obtain ⟨-, hsettled, -, -, -, -, hanswers, -⟩ := h; simp [hsettled, hanswers, Phase.pending]
  | late kind => obtain ⟨-, hsettled, -⟩ := h; simp [hsettled, Phase.pending]

/-- Only an abandoned run that settled is told of as late. -/
theorem Matches.late {lateMs : ℚ} {outcome : Outcome V E} (h : Matches o c p)
    (hmem : HookCall.onSettledLate lateMs outcome ∈ c.hookCalls) : ∃ kind, p = .late kind := by
  cases p with
  | idle aborted => obtain ⟨-, -, -, -, -, -, -, -, hhooks, -⟩ := h; rw [hhooks] at hmem; cases hmem
  | running => obtain ⟨-, -, -, -, -, -, -, -, hhooks, -⟩ := h; rw [hhooks] at hmem; cases hmem
  | cutBy kind => obtain ⟨-, -, -, -, -, -, -, -, hhooks⟩ := h; rw [hhooks] at hmem; cases hmem
  | passed outcome => obtain ⟨-, -, -, -, -, -, hhooks⟩ := h; rw [hhooks] at hmem; cases hmem
  | abandoned kind =>
    obtain ⟨-, -, -, -, -, -, -, -, hhooks⟩ := h
    rw [hhooks] at hmem
    unfold hooksOf at hmem
    split_ifs at hmem <;> simp at hmem
  | late kind => exact ⟨kind, rfl⟩

end Told

/-- What the events of a call made with `before` behind it say of the call. -/
structure Settles (callerSignal : Bool) (before after : List (Event V E)) (c : Call V E) : Prop where
  /-- A run that settled before its grace timer fired passes its own result or error. -/
  own : ∀ a outcome b, after = a ++ .settles outcome :: b → a.any Event.isSettles = false →
    ¬ GraceFired callerSignal before a → c.answers = [.own outcome]
  /-- Otherwise the caller gets the first cut when the grace timer fires, whatever the run does later. -/
  deadline : ∀ a b kind, after = a ++ .grace :: b → a.any Event.isSettles = false →
    firstCut callerSignal before a = some kind → c.answers = [.deadline kind]
  /-- Until then there is no answer. -/
  pending : after.any Event.isSettles = false → ¬ GraceFired callerSignal before after → c.answers = []
  settled : c.settled = after.any Event.isSettles
  /-- A late settlement is told only behind the abandonment. -/
  late : ∀ lateMs outcome, .onSettledLate lateMs outcome ∈ c.hookCalls →
    ∃ a late b, after = a ++ .settles late :: b ∧ GraceFired callerSignal before a

theorem phaseOf_settles {o : CallOptions} {before after : List (Event V E)} {c : Call V E}
    (hbefore : before.any Event.isMade = false)
    (h : Matches o c (phaseOf o.callerSignal (before ++ .made :: after))) :
    Settles o.callerSignal before after c where
  own a outcome b heq ha hnot := by
    rw [heq, (phaseOf_settled outcome hbefore ha).1 hnot] at h
    obtain ⟨-, -, -, -, -, hanswers, -⟩ := h
    exact hanswers
  deadline a b kind heq ha hcut := by
    have hfired : GraceFired o.callerSignal before (a ++ [.grace]) :=
      graceFired_snoc.mpr (Or.inr ⟨rfl, by rw [hcut]; rfl⟩)
    have hquiet : (a ++ [.grace] : List (Event V E)).any Event.isSettles = false := by
      rw [List.any_append, ha]
      rfl
    have hcut' := firstCut_append hcut [Event.grace]
    have hafter : after = (a ++ [.grace]) ++ b := by rw [heq]; simp
    cases hsettles : b.any Event.isSettles with
    | false =>
      have hnone : after.any Event.isSettles = false := by
        rw [hafter, List.any_append, hquiet, hsettles]
        rfl
      have hunsettled := phaseOf_unsettled o.callerSignal hbefore hnone
      rw [hunsettled.abandoned kind (hafter ▸ firstCut_append hcut' b) (hafter ▸ hfired.append b)] at h
      obtain ⟨-, -, -, -, -, -, hanswers, -⟩ := h
      exact hanswers
    | true =>
      obtain ⟨b₁, outcome, b₂, rfl, hb₁⟩ := split_settles hsettles
      rw [← List.append_assoc] at hafter
      have hnone : (a ++ [Event.grace] ++ b₁).any Event.isSettles = false := by
        rw [List.any_append, hquiet, hb₁]
        rfl
      rw [hafter, (phaseOf_settled outcome hbefore hnone).2 kind (firstCut_append hcut' b₁) (hfired.append b₁)]
        at h
      obtain ⟨-, -, -, -, -, hanswers, -⟩ := h
      exact hanswers
  pending hquiet hnot := by
    have hunsettled := phaseOf_unsettled o.callerSignal hbefore hquiet
    cases hcut : firstCut o.callerSignal before after with
    | none =>
      rw [hunsettled.running hcut] at h
      obtain ⟨-, -, -, -, -, -, -, hanswers, -⟩ := h
      exact hanswers
    | some kind =>
      rw [hunsettled.cut kind hcut hnot] at h
      obtain ⟨-, -, -, -, -, -, -, hanswers, -⟩ := h
      exact hanswers
  settled := by
    cases hsettles : after.any Event.isSettles with
    | false =>
      have hunsettled := phaseOf_unsettled o.callerSignal hbefore hsettles
      cases hcut : firstCut o.callerSignal before after with
      | none =>
        rw [hunsettled.running hcut] at h
        exact h.2.1
      | some kind =>
        by_cases hfired : GraceFired o.callerSignal before after
        · rw [hunsettled.abandoned kind hcut hfired] at h
          exact h.2.1
        · rw [hunsettled.cut kind hcut hfired] at h
          exact h.2.1
    | true =>
      obtain ⟨a, outcome, b, rfl, ha⟩ := split_settles hsettles
      by_cases hfired : GraceFired o.callerSignal before a
      · obtain ⟨kind, hcut⟩ := Option.isSome_iff_exists.mp hfired.cut
        rw [(phaseOf_settled outcome hbefore ha).2 kind hcut hfired] at h
        exact h.2.1
      · rw [(phaseOf_settled outcome hbefore ha).1 hfired] at h
        exact h.2.1
  late lateMs outcome hmem := by
    obtain ⟨kind, hlate⟩ := h.late hmem
    cases hsettles : after.any Event.isSettles with
    | false =>
      exfalso
      have hunsettled := phaseOf_unsettled o.callerSignal hbefore hsettles
      cases hcut : firstCut o.callerSignal before after with
      | none => cases hlate.symm.trans (hunsettled.running hcut)
      | some kind =>
        by_cases hfired : GraceFired o.callerSignal before after
        · cases hlate.symm.trans (hunsettled.abandoned kind hcut hfired)
        · cases hlate.symm.trans (hunsettled.cut kind hcut hfired)
    | true =>
      obtain ⟨a, late, b, rfl, ha⟩ := split_settles hsettles
      refine ⟨a, late, b, rfl, ?_⟩
      by_contra hfired
      cases hlate.symm.trans ((phaseOf_settled late hbefore ha).1 hfired)

/-- **`withinDeadline` settles once and counts what it abandoned**: for any calls and any order of their events
each caller is answered at most once, as `Settles` says; the counter is the number of the calls answered with a
`DeadlineError` whose run has not settled, never negative; each hook is called at most once, in order. -/
theorem withinDeadline_settles (hs : List (Happens V E)) :
    (run (processStep options) Process.fresh hs).abandoned =
        ((hs.map Happens.call).toFinset.filter
          (fun i => awaited ((run (processStep options) Process.fresh hs).calls i))).card ∧
      0 ≤ (run (processStep options) Process.fresh hs).abandoned ∧
      ∀ i, ((run (processStep options) Process.fresh hs).calls i).answers.length ≤ 1 ∧
        HooksInOrder ((run (processStep options) Process.fresh hs).calls i).hookCalls ∧
        ∀ before after, eventsOf i hs = before ++ .made :: after → before.any Event.isMade = false →
          Settles (options i).callerSignal before after ((run (processStep options) Process.fresh hs).calls i) := by
  obtain ⟨hcalls, hcounter⟩ := run_matches options hs
  have hcount : (run (processStep options) Process.fresh hs).abandoned =
      ((hs.map Happens.call).toFinset.filter
        (fun i => awaited ((run (processStep options) Process.fresh hs).calls i))).card := by
    rw [hcounter (hs.map Happens.call).toFinset (fun h hh => List.mem_toFinset.mpr (List.mem_map_of_mem hh))]
    rw [Finset.sum_congr rfl (fun i _ => (hcalls i).pending), Finset.card_filter]
    push_cast
    rfl
  refine ⟨hcount, by rw [hcount]; exact Int.natCast_nonneg _, fun i => ?_⟩
  refine ⟨(hcalls i).answers_length, (hcalls i).hooks, fun before after heq hbefore => ?_⟩
  have hphase := hcalls i
  unfold phaseIn at hphase
  rw [heq] at hphase
  exact phaseOf_settles hbefore hphase

end FetchDeadline

end Binarius
