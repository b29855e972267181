import Mathlib.Tactic
import Binarius.Lib.Runs
import Binarius.Lib.History
import Binarius.Shared.Trading

/-!
# Worker.TickScheduler — the orchestrator's ticks and wakes
(apps/trading-worker/src/trading-session/orchestrator.ts)

A tick takes the wakes so far before its first await, and runs until its `finally`, which starts the
next one when a wake is pending.

* `TickScheduler.runTick`, `tick`, `wake`, `ends`: the scheduling, one callback at a time.
* `tick_cases`: **a tick is refused, merged or begun.**
* `TickScheduler.Served`: what has become of every wake; `Served.extend`: what more of the log leaves of it.
* `orchestrator_wakes`: one tick at a time, and no wake is lost before the stop.
-/

namespace Binarius

open Lib

/-- A tick that runs: its clock reading and its scope. -/
structure RunningTick where
  id : ℕ
  tickAt : ℚ
  full : Bool
  accounts : List AccountId
  deriving DecidableEq

/-- The tick's scope has the account. -/
def RunningTick.covers (t : RunningTick) (account : AccountId) : Prop :=
    t.full = true ∨ account ∈ t.accounts

inductive SchedulerEntry
  | woke (account : Option AccountId)
  | began (tick : RunningTick)
  | ended (id : ℕ) (failed : Bool)
  | stopped
  deriving DecidableEq

structure TickScheduler where
  stopped : Bool := false
  /-- the interval is set -/
  armed : Bool := false
  running : Option ℕ := none
  runningFull : Bool := false
  pending : ℕ := 0
  pendingAccounts : List AccountId := []
  pendingFull : Bool := false
  lastFullAt : Option ℚ := none
  /-- the ticks begun and not ended -/
  inFlight : List RunningTick := []
  begun : ℕ := 0
  log : List SchedulerEntry := []

namespace TickScheduler

variable (tickMs : ℚ) (s : TickScheduler)

/-- The tick that would begin. -/
def nextTick (now : ℚ) : RunningTick where
  id := s.begun
  tickAt := now
  -- a tick a tick after the last full one is full
  full := s.pendingFull || s.pendingAccounts.isEmpty || s.lastFullAt.all (fun at' =>
    decide (tickMs ≤ now - at'))
  accounts := s.pendingAccounts

/-- `runTick`, to its first await. -/
def runTick (now : ℚ) : TickScheduler :=
  { s with
    running := some s.begun
    runningFull := (s.nextTick tickMs now).full
    pending := 0
    pendingAccounts := []
    pendingFull := false
    inFlight := s.inFlight ++ [s.nextTick tickMs now]
    begun := s.begun + 1
    log := s.log ++ [.began (s.nextTick tickMs now)] }

def tick (now : ℚ) : TickScheduler :=
  if s.stopped then s
  else if s.running.isSome && !s.runningFull then { s with pendingFull := true }
  else if s.running.isSome then s
  else s.runTick tickMs now

/-- The wake is counted; its account joins the set. -/
def noteWake (account : Option AccountId) : TickScheduler :=
  { s with
    pending := s.pending + 1
    pendingFull := s.pendingFull || account.isNone
    pendingAccounts :=
      match account with
      | none => s.pendingAccounts
      | some a => if a ∈ s.pendingAccounts then s.pendingAccounts else s.pendingAccounts ++ [a]
    log := s.log ++ [.woke account] }

def wake (account : Option AccountId) (now : ℚ) : TickScheduler :=
  let woken := s.noteWake account
  if woken.running = none then woken.tick tickMs now else woken

/-- A tick has ended, well or not: the `finally`, up to the next tick. -/
def release (id : ℕ) (failed : Bool) : TickScheduler :=
  { s with
    running := none
    inFlight := s.inFlight.filter (fun t => t.id ≠ id)
    log := s.log ++ [.ended id failed] }

def ends (id : ℕ) (failed : Bool) (now : ℚ) : TickScheduler :=
  let freed := s.release id failed
  if 0 < freed.pending ∨ freed.pendingFull = true then freed.tick tickMs now else freed

/-- The sweep of a full tick is done. -/
def swept (t : RunningTick) : TickScheduler := if t.full then { s with lastFullAt := some t.tickAt } else s

def start (now : ℚ) : TickScheduler :=
  if s.stopped ∨ s.armed then s else { s.tick tickMs now with armed := true }

def stop : TickScheduler := { s with stopped := true, armed := false, log := s.log ++ [.stopped] }

end TickScheduler

inductive SchedulerAct
  | start (now : ℚ)
  | fires (now : ℚ)
  | tick (now : ℚ)
  | wake (account : Option AccountId) (now : ℚ)
  | swept (id : ℕ)
  | ends (id : ℕ) (failed : Bool) (now : ℚ)
  | stop

def TickScheduler.act (tickMs : ℚ) (s : TickScheduler) : SchedulerAct → TickScheduler
  | .start now => s.start tickMs now
  | .fires now => if s.armed then s.tick tickMs now else s
  | .tick now => s.tick tickMs now
  | .wake account now => s.wake tickMs account now
  | .swept id =>
    match s.inFlight.find? (fun t => t.id = id) with
    | some t => s.swept t
    | none => s
  | .ends id failed now => if s.inFlight.any (fun t => t.id = id) then s.ends tickMs id failed now else s
  | .stop => s.stop

/-! ## What a tick can be -/

section Tick

variable {tickMs : ℚ} {s s' : TickScheduler}

/-- **A tick is refused after the stop or merged into a full one, merged into a partial one, or begun.** -/
theorem tick_cases (s : TickScheduler) (now : ℚ) :
    (s.tick tickMs now = s ∧ (s.stopped = true ∨ s.running.isSome = true)) ∨
      (s.tick tickMs now = { s with pendingFull := true } ∧ s.running.isSome = true) ∨
        (s.tick tickMs now = s.runTick tickMs now ∧ s.stopped = false ∧ s.running = none) := by
  unfold TickScheduler.tick
  split_ifs with hstopped hpartial hrunning
  · exact .inl ⟨rfl, .inl hstopped⟩
  · exact .inr (.inl ⟨rfl, (Bool.and_eq_true _ _ ▸ hpartial).1⟩)
  · exact .inl ⟨rfl, .inr hrunning⟩
  · exact .inr (.inr ⟨rfl, Bool.eq_false_of_not_eq_true hstopped, Option.not_isSome_iff_eq_none.mp
      hrunning⟩)

/-- The running tick is the one in flight. -/
def TickScheduler.Single (s : TickScheduler) : Prop :=
  (s.running = none ∧ s.inFlight = []) ∨ ∃ t, s.running = some t.id ∧ s.inFlight = [t]

theorem TickScheduler.Single.tick (h : s.Single) (now : ℚ) : (s.tick tickMs now).Single := by
  rcases @tick_cases tickMs s now with ⟨heq, -⟩ | ⟨heq, -⟩ | ⟨heq, -, hnone⟩
  · rw [heq]
    exact h
  · rw [heq]
    exact h
  · rw [heq]
    right
    refine ⟨s.nextTick tickMs now, rfl, ?_⟩
    rcases h with ⟨-, hempty⟩ | ⟨t, hsome, -⟩
    · show s.inFlight ++ _ = _
      rw [hempty]
      rfl
    · rw [hnone] at hsome
      cases hsome

theorem TickScheduler.Single.release (h : s.Single) {id : ℕ}
    (hid : s.inFlight.any (fun t => t.id = id) = true)
    (failed : Bool) : (s.release id failed).Single := by
  left
  refine ⟨rfl, ?_⟩
  show s.inFlight.filter _ = []
  rcases h with ⟨-, hempty⟩ | ⟨t, -, hone⟩
  · rw [hempty]
    rfl
  · rw [hone] at hid ⊢
    have ht : t.id = id := by simpa using hid
    rw [List.filter_cons_of_neg (by simpa using ht)]
    rfl

/-! ## The wakes -/

/-- After the wake no tick ended before the stop. -/
def NoEndBeforeStop (after : List SchedulerEntry) : Prop :=
  ∀ between id failed rest, after = between ++ .ended id failed :: rest → .stopped ∈ between

/-- **What becomes of a wake** made before the stop: a tick that covers it began after it, or it is pending,
and no tick has ended since, but after the stop. -/
def TickScheduler.Served (s : TickScheduler) : Prop :=
  ∀ before account after, s.log = before ++ .woke (some account) :: after → .stopped ∉ before →
    (∃ t, .began t ∈ after ∧ t.covers account) ∨ (account ∈ s.pendingAccounts ∧ NoEndBeforeStop after)

/-- The rest of what every callback keeps. -/
structure TickScheduler.Inv (s : TickScheduler) : Prop where
  single : s.Single
  counted : s.pendingAccounts ≠ [] → 0 < s.pending
  stopped : s.stopped = true ↔ .stopped ∈ s.log
  served : s.Served

/-- Before the stop, an idle scheduler has no wake. -/
def TickScheduler.Idle (s : TickScheduler) : Prop :=
  s.stopped = false → s.running = none → s.pending = 0 ∧ s.pendingFull = false ∧ s.pendingAccounts = []

/-- **More of the log**: the wakes so far are taken by a tick, or stay pending while no tick ends. -/
theorem TickScheduler.Served.extend (h : s.Served) (hstop : s.stopped = true ↔ .stopped ∈ s.log)
    {es : List SchedulerEntry} (hlog : s'.log = s.log ++ es)
    (hold : (∀ account ∈ s.pendingAccounts, ∃ t, .began t ∈ es ∧ t.covers account) ∨
      (∀ account ∈ s.pendingAccounts, account ∈ s'.pendingAccounts) ∧
        (s.stopped = true ∨ ∀ id failed, .ended id failed ∉ es))
    (hnew : ∀ before account after, es = before ++ .woke (some account) :: after →
      (∃ t, .began t ∈ after ∧ t.covers account) ∨ (account ∈ s'.pendingAccounts ∧ NoEndBeforeStop after)) :
    s'.Served := by
  intro before account after heq hbefore
  rw [hlog] at heq
  rcases append_eq_split heq with ⟨after', rfl, hsplit⟩ | ⟨before', rfl, hes⟩
  · rcases h before account after' hsplit hbefore with ⟨t, ht, hcovers⟩ | ⟨hpending, hquiet⟩
    · exact .inl ⟨t, List.mem_append_left _ ht, hcovers⟩
    · rcases hold with htaken | ⟨hkept, hends⟩
      · obtain ⟨t, ht, hcovers⟩ := htaken account hpending
        exact .inl ⟨t, List.mem_append_right _ ht, hcovers⟩
      · right
        refine ⟨hkept account hpending, fun between id failed rest hafter => ?_⟩
        rcases append_eq_split hafter with ⟨rest', -, hfirst⟩ | ⟨between', rfl, hlast⟩
        · exact hquiet between id failed rest' hfirst
        · rcases hends with hstopped | hno
          · -- the stop came after the wake
            have hmem := hstop.mp hstopped
            rw [hsplit] at hmem
            rcases List.mem_append.mp hmem with hb | hafter
            · exact absurd hb hbefore
            · rcases List.mem_cons.mp hafter with hwoke | hafter
              · cases hwoke
              · exact List.mem_append_left _ hafter
          · refine absurd ?_ (hno id failed)
            rw [hlast]
            exact List.mem_append_right _ List.mem_cons_self
  · exact hnew before' account after hes

/-- A tick that begins covers every pending account. -/
theorem runTick_covers {now : ℚ} {account : AccountId} (h : account ∈ s.pendingAccounts) :
    (s.nextTick tickMs now).covers account := .inr h

/-- A tick keeps the invariant, and leaves no wake behind when none ran. -/
theorem TickScheduler.Inv.tick (h : s.Inv) (now : ℚ) : (s.tick tickMs now).Inv := by
  have hsingle := @TickScheduler.Single.tick tickMs _ h.single now
  rcases @tick_cases tickMs s now with ⟨heq, -⟩ | ⟨heq, -⟩ | ⟨heq, -, hnone⟩
  · rw [heq]
    exact h
  · rw [heq] at hsingle ⊢
    exact ⟨hsingle, h.counted, h.stopped, h.served⟩
  · rw [heq] at hsingle ⊢
    refine ⟨hsingle, fun hne => absurd rfl hne, ?_, ?_⟩
    · show s.stopped = true ↔ .stopped ∈ s.log ++ [.began _]
      rw [h.stopped]
      simp
    · refine @TickScheduler.Served.extend _ _ h.served h.stopped [.began (s.nextTick tickMs now)] rfl
        (.inl ?_) ?_
      · exact fun account hmem => ⟨_, List.mem_cons_self, runTick_covers hmem⟩
      · intro before account after heq'
        rcases List.append_eq_singleton_iff.mp heq'.symm with ⟨-, hcons⟩ | ⟨-, hcons⟩
        · cases hcons
        · cases hcons

/-- After a tick call a tick runs, or the scheduler is stopped. -/
theorem TickScheduler.idle_tick (s : TickScheduler) (now : ℚ) : (s.tick tickMs now).Idle := by
  intro hstop hnone
  rcases @tick_cases tickMs s now with ⟨heq, hrefused⟩ | ⟨heq, hrun⟩ | ⟨heq, -, -⟩
  · rw [heq] at hstop hnone
    rcases hrefused with hstopped | hrun
    · exact absurd (hstop.symm.trans hstopped) Bool.false_ne_true
    · rw [hnone] at hrun
      exact absurd hrun Bool.false_ne_true
  · rw [heq] at hnone
    rw [show s.running = none from hnone] at hrun
    exact absurd hrun Bool.false_ne_true
  · rw [heq] at hnone
    cases hnone

/-- The wake joins what is pending. -/
theorem TickScheduler.Inv.noteWake (h : s.Inv) (account : Option AccountId) : (s.noteWake account).Inv := by
  have hkept : ∀ a ∈ s.pendingAccounts, a ∈ (s.noteWake account).pendingAccounts := by
    intro a ha
    unfold TickScheduler.noteWake
    cases account with
    | none => exact ha
    | some b =>
      show a ∈ if b ∈ s.pendingAccounts then s.pendingAccounts else s.pendingAccounts ++ [b]
      split_ifs
      · exact ha
      · exact List.mem_append_left _ ha
  refine ⟨h.single, fun _ => Nat.succ_pos _, ?_, ?_⟩
  · show s.stopped = true ↔ .stopped ∈ s.log ++ [.woke account]
    rw [h.stopped]
    simp
  · refine @TickScheduler.Served.extend _ _ h.served h.stopped [.woke account] rfl
      (.inr ⟨hkept, .inr ?_⟩) ?_
    · intro id failed hmem
      cases List.mem_singleton.mp hmem
    · intro before a after heq
      rcases List.append_eq_singleton_iff.mp heq.symm with ⟨-, hcons⟩ | ⟨-, hcons⟩
      · obtain ⟨hwoke, rfl⟩ := List.cons.inj hcons
        cases hwoke
        refine .inr ⟨?_, fun between id failed rest hnil => absurd hnil.symm (by simp)⟩
        show a ∈ if a ∈ s.pendingAccounts then s.pendingAccounts else s.pendingAccounts ++ [a]
        split_ifs with hmem
        · exact hmem
        · exact List.mem_append_right _ List.mem_cons_self
      · cases hcons

/-- **The end of a tick**: the next one takes what is pending, before the stop. -/
theorem TickScheduler.Inv.ends (h : s.Inv) {id : ℕ} (hid : s.inFlight.any (fun t => t.id = id) = true)
    (failed : Bool) (now : ℚ) : (s.ends tickMs id failed now).Inv ∧ (s.ends tickMs id failed now).Idle := by
  have hsingle := h.single.release hid failed
  have hfreed : (s.release id failed).stopped = true ↔ .stopped ∈ (s.release id failed).log := by
    show s.stopped = true ↔ .stopped ∈ s.log ++ [.ended id failed]
    rw [h.stopped]
    simp
  have hnoWoke : ∀ (es : List SchedulerEntry), (∀ account, .woke account ∉ es) → ∀ before account after,
      es = before ++ .woke (some account) :: after → False := by
    rintro es hes before account after rfl
    exact hes (some account) (List.mem_append_right _ List.mem_cons_self)
  unfold TickScheduler.ends
  simp only
  split_ifs with hpending
  · refine ⟨?_, TickScheduler.idle_tick _ _⟩
    have htick := @TickScheduler.Single.tick tickMs _ hsingle now
    rcases @tick_cases tickMs (s.release id failed) now with ⟨heq, hstop⟩ | ⟨-, hrun⟩ | ⟨heq, -, -⟩
    · -- stopped: the pending wakes stay
      rw [heq]
      have hstopped : s.stopped = true := hstop.resolve_right Bool.false_ne_true
      refine ⟨hsingle, h.counted, hfreed, ?_⟩
      refine @TickScheduler.Served.extend _ _ h.served h.stopped [.ended id failed] rfl
        (.inr ⟨fun _ ha => ha, .inl hstopped⟩) ?_
      intro before account after hes
      refine (hnoWoke _ (fun a hmem => ?_) before account after hes).elim
      cases List.mem_singleton.mp hmem
    · exact absurd hrun Bool.false_ne_true
    · rw [heq] at htick ⊢
      refine ⟨htick, fun hne => absurd rfl hne, ?_, ?_⟩
      · show s.stopped = true ↔ .stopped ∈ (s.release id failed).log ++ [.began _]
        rw [show s.stopped = (s.release id failed).stopped from rfl, hfreed]
        simp
      · refine @TickScheduler.Served.extend _ _ h.served h.stopped
          [.ended id failed, .began ((s.release id failed).nextTick tickMs now)] (List.append_assoc _ _ _)
          (.inl fun account ha => ⟨_, List.mem_cons_of_mem _ List.mem_cons_self, runTick_covers ha⟩) ?_
        intro before account after hes
        refine (hnoWoke _ (fun a hmem => ?_) before account after hes).elim
        rcases List.mem_cons.mp hmem with hended | hbegan
        · cases hended
        · cases List.mem_singleton.mp hbegan
  · obtain ⟨hzero, hfull⟩ := not_or.mp hpending
    have hnone : s.pendingAccounts = [] := by
      by_contra hne
      exact hzero (h.counted hne)
    refine ⟨⟨hsingle, h.counted, hfreed, ?_⟩, fun _ _ => ⟨Nat.eq_zero_of_not_pos hzero, ?_, hnone⟩⟩
    · refine @TickScheduler.Served.extend _ _ h.served h.stopped [.ended id failed] rfl (.inl ?_) ?_
      · intro account ha
        rw [hnone] at ha
        exact absurd ha List.not_mem_nil
      · intro before account after hes
        refine (hnoWoke _ (fun a hmem => ?_) before account after hes).elim
        cases List.mem_singleton.mp hmem
    · exact Bool.eq_false_of_not_eq_true hfull

theorem TickScheduler.Inv.stop (h : s.Inv) : s.stop.Inv := by
  refine ⟨h.single, h.counted, ⟨fun _ => List.mem_append_right _ List.mem_cons_self, fun _ => rfl⟩, ?_⟩
  refine @TickScheduler.Served.extend _ _ h.served h.stopped [.stopped] rfl
    (.inr ⟨fun _ ha => ha, .inr ?_⟩) ?_
  · intro id failed hmem
    cases List.mem_singleton.mp hmem
  · intro before account after hes
    rcases List.append_eq_singleton_iff.mp hes.symm with ⟨-, hcons⟩ | ⟨-, hcons⟩
    · cases hcons
    · cases hcons

/-- **A callback** keeps the invariant, and leaves no wake idle before the stop. -/
theorem TickScheduler.Inv.act (h : s.Inv) (hidle : s.Idle) (a : SchedulerAct) :
    (s.act tickMs a).Inv ∧ (s.act tickMs a).Idle := by
  cases a with
  | start now =>
    show (s.start tickMs now).Inv ∧ (s.start tickMs now).Idle
    unfold TickScheduler.start
    split_ifs
    · exact ⟨h, hidle⟩
    · have htick := @TickScheduler.Inv.tick tickMs s h now
      exact ⟨⟨htick.single, htick.counted, htick.stopped, htick.served⟩, @TickScheduler.idle_tick tickMs
        s now⟩
  | fires now =>
    show (if s.armed then s.tick tickMs now else s).Inv ∧ (if s.armed then s.tick tickMs now else s).Idle
    split_ifs
    · exact ⟨h.tick now, TickScheduler.idle_tick s now⟩
    · exact ⟨h, hidle⟩
  | tick now => exact ⟨h.tick now, TickScheduler.idle_tick s now⟩
  | wake account now =>
    show (s.wake tickMs account now).Inv ∧ (s.wake tickMs account now).Idle
    unfold TickScheduler.wake
    simp only
    split_ifs with hnone
    · exact ⟨(h.noteWake account).tick now, TickScheduler.idle_tick _ now⟩
    · exact ⟨h.noteWake account, fun _ hrun => absurd hrun hnone⟩
  | swept id =>
    have hsame : ∀ o : Option RunningTick, (o.elim s s.swept).Inv ∧ (o.elim s s.swept).Idle := by
      intro o
      cases o with
      | none => exact ⟨h, hidle⟩
      | some t =>
        show (s.swept t).Inv ∧ (s.swept t).Idle
        unfold TickScheduler.swept
        split_ifs
        · exact ⟨⟨h.single, h.counted, h.stopped, h.served⟩, hidle⟩
        · exact ⟨h, hidle⟩
    have hsome := hsame (s.inFlight.find? (fun t => t.id = id))
    unfold TickScheduler.act
    simp only
    split <;> rename_i heq <;> rw [heq] at hsome <;> exact hsome
  | ends id failed now =>
    unfold TickScheduler.act
    simp only
    split_ifs with hid
    · exact h.ends hid failed now
    · exact ⟨h, hidle⟩
  | stop => exact ⟨h.stop, fun hstop => absurd hstop.symm Bool.false_ne_true⟩

/-- **After the stop** no tick begins. -/
theorem TickScheduler.act_stopped (h : s.stopped = true) (a : SchedulerAct) :
    (s.act tickMs a).stopped = true ∧ ∃ es, (s.act tickMs a).log = s.log ++ es ∧ ∀ t, .began t ∉ es := by
  have htick : ∀ (s' : TickScheduler) (now : ℚ), s'.stopped = true → s'.tick tickMs now = s' := by
    intro s' now hs'
    unfold TickScheduler.tick
    rw [if_pos hs']
  have hsame : ∃ es, s.log = s.log ++ es ∧ ∀ t, SchedulerEntry.began t ∉ es :=
    ⟨[], (List.append_nil _).symm, fun _ => List.not_mem_nil⟩
  have hone : ∀ e : SchedulerEntry, (∀ t, e ≠ .began t) →
      ∃ es, s.log ++ [e] = s.log ++ es ∧ ∀ t, SchedulerEntry.began t ∉ es :=
    fun e he => ⟨[e], rfl, fun t ht => he t (List.mem_singleton.mp ht).symm⟩
  unfold TickScheduler.act
  cases a with
  | start now =>
    simp only [TickScheduler.start]
    rw [if_pos (.inl h)]
    exact ⟨h, hsame⟩
  | fires now =>
    simp only
    rw [htick s now h, ite_self]
    exact ⟨h, hsame⟩
  | tick now =>
    simp only
    rw [htick s now h]
    exact ⟨h, hsame⟩
  | wake account now =>
    simp only [TickScheduler.wake]
    rw [htick (s.noteWake account) now h, ite_self]
    refine ⟨h, hone _ (fun t hwoke => ?_)⟩
    cases hwoke
  | swept id =>
    simp only [TickScheduler.swept]
    split
    · split_ifs
      · exact ⟨h, hsame⟩
      · exact ⟨h, hsame⟩
    · exact ⟨h, hsame⟩
  | ends id failed now =>
    simp only
    split_ifs
    · simp only [TickScheduler.ends]
      rw [htick (s.release id failed) now h, ite_self]
      refine ⟨h, hone _ (fun t hended => ?_)⟩
      cases hended
    · exact ⟨h, hsame⟩
  | stop =>
    refine ⟨rfl, hone _ (fun t hstop => ?_)⟩
    cases hstop

theorem TickScheduler.run_stopped (h : s.stopped = true) (as : List SchedulerAct) :
    ∃ es, (run (TickScheduler.act tickMs) s as).log = s.log ++ es ∧ ∀ t, .began t ∉ es := by
  refine (@run_induction _ _ (TickScheduler.act tickMs)
    (fun s' => s'.stopped = true ∧ ∃ es, s'.log = s.log ++ es ∧ ∀ t, SchedulerEntry.began t ∉ es) s ?_
      ?_ as).2
  · exact ⟨h, [], (List.append_nil _).symm, fun _ => List.not_mem_nil⟩
  · rintro s' a ⟨hstop, es, hlog, hes⟩
    obtain ⟨hstop', es', hlog', hes'⟩ := @TickScheduler.act_stopped tickMs s' hstop a
    refine ⟨hstop', es ++ es', by rw [hlog', hlog, List.append_assoc], fun t ht => ?_⟩
    rcases List.mem_append.mp ht with ht | ht
    · exact hes t ht
    · exact hes' t ht

end Tick

/-- What any run keeps. -/
theorem TickScheduler.run_inv (tickMs : ℚ) (as : List SchedulerAct) :
    (run (TickScheduler.act tickMs) {} as).Inv ∧ (run (TickScheduler.act tickMs) {} as).Idle := by
  refine @run_induction _ _ (TickScheduler.act tickMs) (fun s => s.Inv ∧ s.Idle) {} ?_ (fun s a h =>
    h.1.act h.2 a) as
  refine ⟨⟨.inl ⟨rfl, rfl⟩, fun hne => absurd rfl hne, ?_, ?_⟩, fun _ _ => ⟨rfl, rfl, rfl⟩⟩
  · exact ⟨fun h => absurd h Bool.false_ne_true, fun h => absurd h List.not_mem_nil⟩
  · intro before account after heq
    exact absurd heq.symm (by simp)

/-- **The wakes of the orchestrator**, in every run: at most one tick runs; a wake of an account before the
stop is covered by a tick that begins after it, or it is pending under a tick in flight that has not
ended since but for a stop; and before the stop nothing is pending while nothing runs. -/
theorem orchestrator_wakes (tickMs : ℚ) (as : List SchedulerAct) :
    (run (TickScheduler.act tickMs) {} as).inFlight.length ≤ 1 ∧
      (∀ before account after,
        (run (TickScheduler.act tickMs) {} as).log = before ++ .woke (some account) :: after →
          .stopped ∉ before →
        (∃ t, .began t ∈ after ∧ t.covers account) ∨
          account ∈ (run (TickScheduler.act tickMs) {} as).pendingAccounts ∧ NoEndBeforeStop after ∧
            ((run (TickScheduler.act tickMs) {} as).inFlight ≠ [] ∨ .stopped ∈ after)) ∧
      (.stopped ∉ (run (TickScheduler.act tickMs) {} as).log →
        (run (TickScheduler.act tickMs) {} as).inFlight = [] →
        (run (TickScheduler.act tickMs) {} as).pending = 0 ∧
          (run (TickScheduler.act tickMs) {} as).pendingFull = false ∧
          (run (TickScheduler.act tickMs) {} as).pendingAccounts = []) := by
  obtain ⟨h, hidle⟩ := TickScheduler.run_inv tickMs as
  generalize run (TickScheduler.act tickMs) {} as = s at h hidle
  have hrest : .stopped ∉ s.log → s.inFlight = [] →
      s.pending = 0 ∧ s.pendingFull = false ∧ s.pendingAccounts = [] := by
    intro hlog hempty
    refine hidle (Bool.eq_false_of_not_eq_true (fun hs => hlog (h.stopped.mp hs))) ?_
    rcases h.single with ⟨hnone, -⟩ | ⟨t, -, hone⟩
    · exact hnone
    · rw [hone] at hempty
      cases hempty
  refine ⟨?_, ?_, hrest⟩
  · rcases h.single with ⟨-, hempty⟩ | ⟨t, -, hone⟩
    · rw [hempty]
      exact Nat.zero_le _
    · rw [hone]
      exact le_rfl
  · intro before account after heq hbefore
    rcases h.served before account after heq hbefore with hserved | ⟨hpending, hquiet⟩
    · exact .inl hserved
    · refine .inr ⟨hpending, hquiet, ?_⟩
      by_contra hnot
      obtain ⟨hempty, hstop⟩ := not_or.mp hnot
      have hlog : .stopped ∉ s.log := by
        rw [heq]
        intro hmem
        rcases List.mem_append.mp hmem with hb | hafter
        · exact hbefore hb
        · rcases List.mem_cons.mp hafter with hwoke | hafter
          · cases hwoke
          · exact hstop hafter
      have hnone := (hrest hlog (not_not.mp hempty)).2.2
      rw [hnone] at hpending
      exact absurd hpending List.not_mem_nil

/-- A wake during a tick, and its end: the next tick covers it. -/
theorem orchestrator_wakes_next :
    ∃ t, .began t ∈ [SchedulerEntry.ended 0 true, .began ⟨1, 5, false, [8]⟩] ∧ t.covers 8 := by
  have h := (orchestrator_wakes 30
    [.tick 0, .swept 0, .wake (some 8) 1, .ends 0 true 5]).2.1
    [.began ⟨0, 0, true, []⟩] 8 [.ended 0 true, .began ⟨1, 5, false, [8]⟩] (by decide +kernel) (by decide)
  rcases h with hserved | ⟨-, hquiet, -⟩
  · exact hserved
  · exact absurd (hquiet [] 0 true _ rfl) List.not_mem_nil

/-- **A wake under a tick that ends after the stop** is covered by no tick, whatever follows, and stays
pending with nothing running and no interval. -/
theorem stop_leaves_wake :
    let s := run (TickScheduler.act 30) {} [.wake (some 7) 0, .wake (some 8) 1, .stop, .ends 0 false 2]
    s.log = [.woke (some 7), .began ⟨0, 0, true, [7]⟩, .woke (some 8), .stopped, .ended 0 false] ∧
      s.inFlight = [] ∧ s.armed = false ∧ s.pending = 1 ∧ s.pendingAccounts = [8] ∧
      ∀ more after, (run (TickScheduler.act 30) s more).log =
          [.woke (some 7), .began ⟨0, 0, true, [7]⟩] ++ .woke (some 8) :: after →
        ¬ ∃ t, .began t ∈ after ∧ t.covers 8 := by
  intro s
  have hlog : s.log = [.woke (some 7), .began ⟨0, 0, true, [7]⟩, .woke (some 8), .stopped,
    .ended 0 false] := by
    decide +kernel
  refine ⟨hlog, by decide +kernel, by decide +kernel, by decide +kernel, by decide +kernel, ?_⟩
  rintro more after heq ⟨t, ht, -⟩
  obtain ⟨es, hes, hnone⟩ := @TickScheduler.run_stopped 30 s (by decide +kernel) more
  rw [heq, hlog] at hes
  have hafter : after = [.stopped, .ended 0 false] ++ es := by simpa using hes
  rw [hafter] at ht
  rcases List.mem_append.mp ht with hold | hnew
  · rcases List.mem_cons.mp hold with hstop | hend
    · cases hstop
    · cases List.mem_singleton.mp hend
  · exact hnone t hnew

end Binarius
