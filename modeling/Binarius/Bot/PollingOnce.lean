import Mathlib.Tactic
import Binarius.Bot.PollingWork
import Binarius.Lib.Runs

/-!
# Bot.PollingOnce — the polling loop loses, repeats and reorders nothing

* `Core`, `PhaseOk`: **the invariant**, what holds in every phase and what each phase adds.
* `Core.loopTop`, `Core.receive`: the top of the loop and an answer.
* `polling_once`: **every received update is handed over once, its key's in order**, the two bounds,
  the pauses, the end of `start` and what Telegram has dropped after the stop.
-/

namespace Binarius

open Lib

/-! ### Ascending lists of updates -/

def Ascending (l : List Update) : Prop := (l.map Update.id).Pairwise (· < ·)

theorem Ascending.tail {u : Update} {l : List Update} (h : Ascending (u :: l)) :
    Ascending l ∧ ∀ v ∈ l, u.id < v.id := by
  unfold Ascending at h ⊢
  rw [List.map_cons, List.pairwise_cons] at h
  exact ⟨h.2, fun v hv => h.1 _ (List.mem_map_of_mem hv)⟩

/-- An ascending list is what is below an id, then the rest. -/
theorem Ascending.split {l : List Update} (h : Ascending l) (offset : ℕ) :
    l.filter (fun u => u.id < offset) ++ l.filter (fun u => offset ≤ u.id) = l := by
  induction l with
  | nil => rfl
  | cons u l ih =>
    obtain ⟨htail, hafter⟩ := h.tail
    by_cases hu : u.id < offset
    · rw [List.filter_cons_of_pos (by simpa using hu), List.filter_cons_of_neg (by simpa using hu),
        List.cons_append, ih htail]
    · have hnone : l.filter (fun u => u.id < offset) = [] := by
        rw [List.filter_eq_nil_iff]
        intro v hv
        have := hafter v hv
        simp only [decide_eq_true_eq]
        omega
      have hall : l.filter (fun u => offset ≤ u.id) = l := by
        rw [List.filter_eq_self]
        intro v hv
        have := hafter v hv
        simp only [decide_eq_true_eq]
        omega
      rw [List.filter_cons_of_neg (by simpa using hu), List.filter_cons_of_pos (by simpa using hu),
        hnone, hall, List.nil_append]

/-- The first update from an offset on, taken in. -/
theorem Ascending.take_first {l : List Update} (h : Ascending l) {offset : ℕ} {u : Update}
    {rest : List Update} (hfirst : l.filter (fun v => offset ≤ v.id) = u :: rest) :
    l.filter (fun v => v.id < u.id + 1) = l.filter (fun v => v.id < offset) ++ [u] ∧
      l.filter (fun v => u.id + 1 ≤ v.id) = rest ∧ offset ≤ u.id ∧ u ∈ l := by
  have hu : u ∈ l.filter (fun v => offset ≤ v.id) := by
    rw [hfirst]
    exact List.mem_cons_self
  obtain ⟨hul, hoffset⟩ := List.mem_filter.mp hu
  have hoffset' : offset ≤ u.id := by simpa using hoffset
  have hsplit := h.split offset
  rw [hfirst] at hsplit
  have hbefore : ∀ v ∈ l.filter (fun v => v.id < offset), v.id < offset := by
    intro v hv
    simpa using (List.mem_filter.mp hv).2
  have hafter : ∀ v ∈ rest, u.id < v.id := by
    have hsub : Ascending (l.filter (fun v => offset ≤ v.id)) := by
      unfold Ascending at h ⊢
      exact h.sublist (List.filter_sublist.map _)
    rw [hfirst] at hsub
    exact hsub.tail.2
  refine ⟨?_, ?_, hoffset', hul⟩
  · have hkeep : (l.filter (fun v => v.id < offset)).filter (fun v => v.id < u.id + 1) =
        l.filter (fun v => v.id < offset) := by
      rw [List.filter_eq_self]
      intro v hv
      have := hbefore v hv
      simp only [decide_eq_true_eq]
      omega
    have hnone : rest.filter (fun v => v.id < u.id + 1) = [] := by
      rw [List.filter_eq_nil_iff]
      intro v hv
      have := hafter v hv
      simp only [decide_eq_true_eq]
      omega
    calc l.filter (fun v => v.id < u.id + 1)
        = (l.filter (fun v => v.id < offset) ++ u :: rest).filter (fun v => v.id < u.id + 1) := by
          rw [hsplit]
      _ = l.filter (fun v => v.id < offset) ++ [u] := by
          rw [List.filter_append, hkeep, List.filter_cons_of_pos (by simp), hnone]
  · have hnone : (l.filter (fun v => v.id < offset)).filter (fun v => u.id + 1 ≤ v.id) = [] := by
      rw [List.filter_eq_nil_iff]
      intro v hv
      have := hbefore v hv
      simp only [decide_eq_true_eq]
      omega
    have hkeep : rest.filter (fun v => u.id + 1 ≤ v.id) = rest := by
      rw [List.filter_eq_self]
      intro v hv
      have := hafter v hv
      simp only [decide_eq_true_eq]
      omega
    calc l.filter (fun v => u.id + 1 ≤ v.id)
        = (l.filter (fun v => v.id < offset) ++ u :: rest).filter (fun v => u.id + 1 ≤ v.id) := by
          rw [hsplit]
      _ = rest := by
          rw [List.filter_append, hnone, List.filter_cons_of_neg (by simp), hkeep, List.nil_append]

/-- Serving a request moves updates from one list to the other. -/
theorem arrived_drop {t : Telegram} (h : Ascending t.arrived) (offset : ℕ) :
    (t.drop offset).arrived = t.arrived := by
  have hpending : Ascending t.pending := by
    unfold Ascending Telegram.arrived at h
    unfold Ascending
    rw [List.map_append, List.pairwise_append] at h
    exact h.2.1
  unfold Telegram.arrived Telegram.drop
  simp only
  rw [List.append_assoc, hpending.split offset]

namespace Polling

section Loop

variable {concurrency waitingMax : ℕ}

/-- What holds in every phase. -/
structure Core (concurrency waitingMax : ℕ) (s : Polling) : Prop where
  work : s.work.Inv s.offset
  ascending : Ascending s.telegram.arrived
  received : s.received = s.telegram.arrived.filter (fun u => u.id < s.offset)
  known : s.offset = 0 ∨ ∃ u ∈ s.telegram.arrived, s.offset = u.id + 1
  covered : ∀ u, u ∈ s.received ↔ u ∈ s.work.ended ∨ ∃ x ∈ s.work.inflight, x.update = u
  requests : ∀ offset ∈ s.requests, offset ≤ s.offset
  dropped : ∀ u ∈ s.telegram.dropped, u.id < s.offset
  heads : s.work.heads ≤ concurrency
  waiting : s.work.waiting ≤ waitingMax
  stopIdle : s.running = true → s.stopCall = .none
  stopSent : ∀ offset, s.stopCall = .sent offset → offset = s.offset
  stopDone : s.stopCall = .succeeded → ∀ u ∈ s.telegram.pending, s.offset ≤ u.id

/-- There is room for `limit` more updates. -/
def Room (concurrency waitingMax : ℕ) (w : Work) (limit : ℕ) : Prop :=
  w.heads + limit ≤ concurrency ∧ w.waiting + limit ≤ waitingMax

/-- An ended handler leaves the room there was. -/
theorem Room.finish {concurrency waitingMax bound limit : ℕ} {w : Work} {task : Task}
    (hroom : Room concurrency waitingMax w limit) (h : w.Inv bound) (hmem : task ∈ w.inflight) :
    Room concurrency waitingMax (w.finish task) limit := by
  obtain ⟨hheads, hwaiting⟩ := h.counts_finish hmem
  unfold Room at hroom ⊢
  omega

/-- What the phase adds. -/
def PhaseOk (concurrency waitingMax : ℕ) (s : Polling) : Prop :=
  match s.phase with
  | .idle => s.running = false ∧ s.stopCall = .none ∧ s.work.inflight = []
  | .starting => s.work.inflight = []
  | .polling limit answer => s.running = true ∧ Room concurrency waitingMax s.work limit ∧
      ∀ updates, answer = some updates → updates.length ≤ limit ∧
        updates <+: s.telegram.arrived.filter (fun u => s.offset ≤ u.id)
  | .retrying limit => s.running = true ∧ Room concurrency waitingMax s.work limit
  | .paused => s.running = true ∧ s.free concurrency waitingMax ≤ 0
  | .woken => True
  | .draining _ => s.running = false
  | .settled _ => s.running = false ∧ s.work.inflight = []

structure Inv (concurrency waitingMax : ℕ) (s : Polling) : Prop where
  core : Core concurrency waitingMax s
  phase : PhaseOk concurrency waitingMax s

theorem Inv.start : Inv concurrency waitingMax Polling.start where
  core :=
    { work := Work.Inv.start
      ascending := List.Pairwise.nil
      received := rfl
      known := .inl rfl
      covered := fun u => by simp [Polling.start, Work.start]
      requests := fun offset h => by cases h
      dropped := fun u h => by cases h
      heads := Nat.zero_le _
      waiting := by
        have hzero : Polling.start.work.waiting = 0 := rfl
        rw [hzero]
        exact Int.natCast_nonneg _
      stopIdle := fun _ => rfl
      stopSent := fun offset h => by cases h
      stopDone := fun h => by cases h }
  phase := ⟨rfl, rfl, rfl⟩

variable {s : Polling}

theorem Core.withPhase (h : Core concurrency waitingMax s) (phase : Phase) :
    Core concurrency waitingMax { s with phase := phase } :=
  ⟨h.work, h.ascending, h.received, h.known, h.covered, h.requests, h.dropped, h.heads, h.waiting,
    h.stopIdle, h.stopSent, h.stopDone⟩

/-- A loop that ends keeps the rest. -/
theorem Core.halt (h : Core concurrency waitingMax s) (phase : Phase) :
    Core concurrency waitingMax { s with running := false, phase := phase } :=
  ⟨h.work, h.ascending, h.received, h.known, h.covered, h.requests, h.dropped, h.heads, h.waiting,
    fun hrunning => Bool.noConfusion hrunning, h.stopSent, h.stopDone⟩

theorem Core.request (h : Core concurrency waitingMax s) (limit : ℕ) :
    Core concurrency waitingMax (s.request limit) := by
  refine ⟨h.work, h.ascending, h.received, h.known, h.covered, ?_, h.dropped, h.heads, h.waiting,
    h.stopIdle, h.stopSent, h.stopDone⟩
  intro offset hoffset
  rcases List.mem_cons.mp hoffset with rfl | hoffset
  · exact le_rfl
  · exact h.requests offset hoffset

/-- **The top of the loop**: a request for no more than the room, a pause without room, or the end. -/
theorem Core.loopTop (h : Core concurrency waitingMax s) :
    Inv concurrency waitingMax (s.loopTop concurrency waitingMax) := by
  unfold Polling.loopTop
  split_ifs with hrunning hfree
  · exact ⟨h.withPhase _, hrunning, hfree⟩
  · refine ⟨h.request _, ?_⟩
    refine ⟨hrunning, ?_, fun updates hnone => by cases hnone⟩
    unfold free at hfree ⊢
    unfold Room
    show s.work.heads + _ ≤ _ ∧ s.work.waiting + _ ≤ _
    omega
  · refine ⟨h.withPhase _, ?_⟩
    show s.running = false
    simpa using hrunning

/-- Every dispatched update is a task. -/
theorem dispatch_inflight (w : Work) (update : Update) :
    ∃ task : Task, task.update = update ∧ (w.dispatch update).inflight = w.inflight ++ [task] ∧
      (w.dispatch update).ended = w.ended := by
  unfold Work.dispatch
  cases updateKey update with
  | none => exact ⟨_, rfl, rfl, rfl⟩
  | some key =>
    simp only
    cases w.chains.get? key with
    | none => exact ⟨_, rfl, rfl, rfl⟩
    | some tail => exact ⟨_, rfl, rfl, rfl⟩

/-- One update of an answer taken in. -/
theorem Core.receiveOne (h : Core concurrency waitingMax s) (hrunning : s.running = true)
    {u : Update} {rest : List Update}
    (hfirst : s.telegram.arrived.filter (fun v => s.offset ≤ v.id) = u :: rest)
    (hheads : (s.work.dispatch u).heads ≤ concurrency)
    (hwaiting : (s.work.dispatch u).waiting ≤ waitingMax) :
    Core concurrency waitingMax
      { s with offset := u.id + 1, work := s.work.dispatch u, received := s.received ++ [u] } := by
  obtain ⟨hbelow, -, hoffset, hmem⟩ := h.ascending.take_first hfirst
  obtain ⟨task, htask, hinflight, hended⟩ := dispatch_inflight s.work u
  have hnone := h.stopIdle hrunning
  refine ⟨h.work.dispatch u hoffset, h.ascending, ?_, .inr ⟨u, hmem, rfl⟩, ?_, ?_, ?_, hheads, hwaiting,
    h.stopIdle, ?_, ?_⟩
  · show s.received ++ [u] = s.telegram.arrived.filter (fun v => v.id < u.id + 1)
    rw [hbelow, h.received]
  · intro v
    show v ∈ s.received ++ [u] ↔ v ∈ (s.work.dispatch u).ended ∨
      ∃ x ∈ (s.work.dispatch u).inflight, x.update = v
    rw [hended, hinflight, List.mem_append, h.covered v, List.mem_singleton]
    constructor
    · rintro ((hv | ⟨x, hx, rfl⟩) | rfl)
      · exact .inl hv
      · exact .inr ⟨x, List.mem_append_left _ hx, rfl⟩
      · exact .inr ⟨task, List.mem_append_right _ (List.mem_singleton_self _), htask⟩
    · rintro (hv | ⟨x, hx, rfl⟩)
      · exact .inl (.inl hv)
      · rcases List.mem_append.mp hx with hx | hx
        · exact .inl (.inr ⟨x, hx, rfl⟩)
        · rw [List.mem_singleton.mp hx, htask]
          exact .inr rfl
  · intro offset ho
    have := h.requests offset ho
    show offset ≤ u.id + 1
    omega
  · intro v hv
    have := h.dropped v hv
    show v.id < u.id + 1
    omega
  · intro offset hsent
    have hsent' : s.stopCall = .sent offset := hsent
    rw [hnone] at hsent'
    cases hsent'
  · intro hdone
    have hdone' : s.stopCall = .succeeded := hdone
    rw [hnone] at hdone'
    cases hdone'

/-- **An answer taken in**, an update after another. -/
theorem Core.receive (h : Core concurrency waitingMax s) (hrunning : s.running = true)
    {updates : List Update} (hroom : Room concurrency waitingMax s.work updates.length)
    (hpre : updates <+: s.telegram.arrived.filter (fun u => s.offset ≤ u.id)) :
    Core concurrency waitingMax (s.receive updates) := by
  induction updates generalizing s with
  | nil => exact h
  | cons u updates ih =>
    obtain ⟨rest, hrest⟩ := hpre
    rw [List.cons_append] at hrest
    obtain ⟨-, hnext, -, -⟩ := h.ascending.take_first hrest.symm
    unfold Room at hroom
    rw [List.length_cons] at hroom
    push_cast at hroom
    have hcounts := Work.counts_dispatch s.work u
    have hone : Core concurrency waitingMax
        { s with offset := u.id + 1, work := s.work.dispatch u, received := s.received ++ [u] } :=
      h.receiveOne hrunning hrest.symm (by omega) (by omega)
    refine ih hone hrunning ?_ ⟨rest, hnext.symm⟩
    unfold Room
    show (s.work.dispatch u).heads + _ ≤ _ ∧ (s.work.dispatch u).waiting + _ ≤ _
    omega

/-- Telegram serves a request of the loop, early or late. -/
theorem Core.drop (h : Core concurrency waitingMax s) {offset : ℕ} (hoffset : offset ≤ s.offset) :
    Core concurrency waitingMax { s with telegram := s.telegram.drop offset } := by
  have harrived := arrived_drop h.ascending offset
  refine ⟨h.work, ?_, ?_, ?_, h.covered, h.requests, ?_, h.heads, h.waiting, h.stopIdle, h.stopSent, ?_⟩
  · show Ascending (s.telegram.drop offset).arrived
    rw [harrived]
    exact h.ascending
  · show s.received = (s.telegram.drop offset).arrived.filter _
    rw [harrived]
    exact h.received
  · show s.offset = 0 ∨ ∃ u ∈ (s.telegram.drop offset).arrived, s.offset = u.id + 1
    rw [harrived]
    exact h.known
  · intro u hu
    have hu' : u ∈ s.telegram.dropped ++ s.telegram.pending.filter (fun u => u.id < offset) := hu
    rcases List.mem_append.mp hu' with hu' | hu'
    · exact h.dropped u hu'
    · have hlt : u.id < offset := by simpa using (List.mem_filter.mp hu').2
      exact lt_of_lt_of_le hlt hoffset
  · intro hdone u hu
    exact h.stopDone hdone u (List.mem_filter.mp hu).1

theorem PhaseOk.drop (ha : Ascending s.telegram.arrived) (h : PhaseOk concurrency waitingMax s)
    (offset : ℕ) : PhaseOk concurrency waitingMax { s with telegram := s.telegram.drop offset } := by
  have harrived := arrived_drop ha offset
  unfold PhaseOk at h ⊢
  cases hphase : s.phase with
  | polling limit answer =>
    rw [hphase] at h
    simp only at h ⊢
    rw [harrived]
    exact h
  | _ =>
    rw [hphase] at h
    exact h

/-- Only a loop that was never started looks at the stop's call. -/
theorem PhaseOk.withStop (h : PhaseOk concurrency waitingMax s) (hphase : s.phase ≠ .idle)
    (stopCall : StopCall) : PhaseOk concurrency waitingMax { s with stopCall := stopCall } := by
  unfold PhaseOk at h ⊢
  cases hp : s.phase with
  | idle => exact absurd hp hphase
  | _ =>
    rw [hp] at h
    exact h

/-- A handler ends. -/
theorem Core.finish (h : Core concurrency waitingMax s) {task : Task} (hmem : task ∈ s.work.inflight)
    (hstarted : task.started = true) :
    Core concurrency waitingMax { s with work := s.work.finish task } := by
  obtain ⟨hheads, hwaiting⟩ := h.work.counts_finish hmem
  refine ⟨h.work.finish hmem hstarted, h.ascending, h.received, h.known, ?_, h.requests, h.dropped,
    hheads.trans h.heads, hwaiting.trans h.waiting, h.stopIdle, h.stopSent, h.stopDone⟩
  intro u
  show u ∈ s.received ↔ u ∈ s.work.ended ++ [task.update] ∨ _
  rw [h.covered u, List.mem_append, List.mem_singleton]
  constructor
  · rintro (hu | ⟨x, hx, rfl⟩)
    · exact .inl (.inl hu)
    · by_cases hid : x.id = task.id
      · rw [h.work.eq_of_id hx hmem hid]
        exact .inl (.inr rfl)
      · exact .inr ⟨_, Work.mem_finish.mpr ⟨x, hx, hid, rfl⟩, Work.startAfter_update _ _⟩
  · rintro ((hu | rfl) | ⟨x, hx, rfl⟩)
    · exact .inl hu
    · exact .inr ⟨task, hmem, rfl⟩
    · obtain ⟨y, hy, -, rfl⟩ := Work.mem_finish.mp hx
      exact .inr ⟨y, hy, (Work.startAfter_update _ _).symm⟩

/-- A new update is above the offset. -/
theorem Core.arrive (h : Core concurrency waitingMax s) {update : Update}
    (hnew : ∀ u ∈ s.telegram.arrived, u.id < update.id) :
    Core concurrency waitingMax
      { s with telegram := { s.telegram with pending := s.telegram.pending ++ [update] } } ∧
      s.offset ≤ update.id := by
  have hoffset : s.offset ≤ update.id := by
    rcases h.known with hzero | ⟨u, hu, hlast⟩
    · omega
    · have := hnew u hu
      omega
  have harrived : ∀ l, (⟨l ++ [update], s.telegram.dropped⟩ : Telegram).arrived =
      (⟨l, s.telegram.dropped⟩ : Telegram).arrived ++ [update] := by
    intro l
    unfold Telegram.arrived
    simp
  refine ⟨⟨h.work, ?_, ?_, ?_, h.covered, h.requests, h.dropped, h.heads, h.waiting, h.stopIdle,
    h.stopSent, ?_⟩, hoffset⟩
  · unfold Ascending
    rw [harrived, List.map_append, List.pairwise_append]
    refine ⟨h.ascending, List.pairwise_singleton _ _, ?_⟩
    intro a ha b hb
    obtain ⟨u, hu, rfl⟩ := List.mem_map.mp ha
    have hb' : b = update.id := by simpa using hb
    rw [hb']
    exact hnew u hu
  · show s.received = _
    rw [harrived, List.filter_append, List.filter_cons_of_neg (by simpa using hoffset), List.filter_nil,
      List.append_nil]
    exact h.received
  · rw [harrived]
    rcases h.known with hzero | ⟨u, hu, hlast⟩
    · exact .inl hzero
    · exact .inr ⟨u, List.mem_append_left _ hu, hlast⟩
  · intro hdone u hu
    rcases List.mem_append.mp hu with hu | hu
    · exact h.stopDone hdone u hu
    · rw [List.mem_singleton.mp hu]
      exact hoffset

theorem Inv.act_arrive (h : Inv concurrency waitingMax s) (update : Update) :
    Inv concurrency waitingMax (s.act concurrency waitingMax (.arrive update)) := by
  obtain ⟨hcore, hphase⟩ := h
  simp only [Polling.act]
  split_ifs with hnew
  · obtain ⟨hcore', hoffset⟩ := hcore.arrive hnew
    refine ⟨hcore', ?_⟩
    unfold PhaseOk at hphase ⊢
    cases hp : s.phase with
    | polling limit answer =>
      rw [hp] at hphase
      obtain ⟨hrunning, hroom, hanswer⟩ := hphase
      refine ⟨hrunning, hroom, fun updates hupdates => ?_⟩
      obtain ⟨hlength, hpre⟩ := hanswer updates hupdates
      refine ⟨hlength, hpre.trans ?_⟩
      -- a new update comes after what was pending
      show List.filter _ s.telegram.arrived <+: List.filter _ (s.telegram.dropped ++ (_ ++ [update]))
      rw [← List.append_assoc, List.filter_append]
      exact List.prefix_append _ _
    | _ =>
      rw [hp] at hphase
      exact hphase
  · exact ⟨hcore, hphase⟩

theorem Inv.act_start (h : Inv concurrency waitingMax s) :
    Inv concurrency waitingMax (s.act concurrency waitingMax .start) := by
  obtain ⟨hcore, hphase⟩ := h
  simp only [Polling.act]
  split_ifs with hidle
  · unfold PhaseOk at hphase
    rw [hidle] at hphase
    obtain ⟨-, hnone, hempty⟩ := hphase
    refine ⟨⟨hcore.work, hcore.ascending, hcore.received, hcore.known, hcore.covered, hcore.requests,
      hcore.dropped, hcore.heads, hcore.waiting, fun _ => hnone, hcore.stopSent, hcore.stopDone⟩, ?_⟩
    exact hempty
  · exact ⟨hcore, hphase⟩

theorem Inv.act_ready (h : Inv concurrency waitingMax s) :
    Inv concurrency waitingMax (s.act concurrency waitingMax .ready) := by
  obtain ⟨hcore, hphase⟩ := h
  simp only [Polling.act]
  split_ifs
  · exact hcore.loopTop
  · exact ⟨hcore, hphase⟩

theorem Inv.act_startFailed (h : Inv concurrency waitingMax s) :
    Inv concurrency waitingMax (s.act concurrency waitingMax .startFailed) := by
  obtain ⟨hcore, hphase⟩ := h
  simp only [Polling.act]
  split_ifs with hstarting
  · unfold PhaseOk at hphase
    rw [hstarting] at hphase
    exact ⟨hcore.halt _, rfl, hphase⟩
  · exact ⟨hcore, hphase⟩

theorem Inv.act_serve (h : Inv concurrency waitingMax s) :
    Inv concurrency waitingMax (s.act concurrency waitingMax .serve) := by
  obtain ⟨hcore, hphase⟩ := h
  simp only [Polling.act]
  split
  · rename_i limit hp
    unfold PhaseOk at hphase
    rw [hp] at hphase
    obtain ⟨hrunning, hroom, -⟩ := hphase
    have hdrop := hcore.drop le_rfl
    refine ⟨hdrop.withPhase _, hrunning, hroom, fun updates hupdates => ?_⟩
    injection hupdates with hupdates
    subst hupdates
    have harrived := arrived_drop hcore.ascending s.offset
    constructor
    · exact List.length_take_le _ _
    · show List.take limit _ <+: List.filter _ (s.telegram.drop s.offset).arrived
      -- what was dropped before is below the offset
      have hdropped : s.telegram.dropped.filter (fun u => s.offset ≤ u.id) = [] := by
        rw [List.filter_eq_nil_iff]
        intro u hu
        have := hcore.dropped u hu
        simp only [decide_eq_true_eq]
        omega
      rw [harrived]
      unfold Telegram.arrived
      rw [List.filter_append, hdropped, List.nil_append]
      exact List.take_prefix _ _
  · exact ⟨hcore, hphase⟩

theorem Inv.act_serveLate (h : Inv concurrency waitingMax s) (offset : ℕ) :
    Inv concurrency waitingMax (s.act concurrency waitingMax (.serveLate offset)) := by
  obtain ⟨hcore, hphase⟩ := h
  simp only [Polling.act]
  split_ifs with hrequest
  · exact ⟨hcore.drop (hcore.requests offset hrequest), hphase.drop hcore.ascending offset⟩
  · exact ⟨hcore, hphase⟩

theorem Inv.act_answered (h : Inv concurrency waitingMax s) :
    Inv concurrency waitingMax (s.act concurrency waitingMax .answered) := by
  obtain ⟨hcore, hphase⟩ := h
  simp only [Polling.act]
  split
  · rename_i limit updates hp
    unfold PhaseOk at hphase
    rw [hp] at hphase
    obtain ⟨hrunning, hroom, hanswer⟩ := hphase
    obtain ⟨hlength, hpre⟩ := hanswer updates rfl
    refine (hcore.receive hrunning ?_ hpre).loopTop
    unfold Room at hroom ⊢
    omega
  · exact ⟨hcore, hphase⟩

theorem Inv.act_callFailed (h : Inv concurrency waitingMax s) :
    Inv concurrency waitingMax (s.act concurrency waitingMax .callFailed) := by
  obtain ⟨hcore, hphase⟩ := h
  simp only [Polling.act]
  split
  · rename_i limit answer hp
    unfold PhaseOk at hphase
    rw [hp] at hphase
    exact ⟨hcore.withPhase _, hphase.1, hphase.2.1⟩
  · exact ⟨hcore, hphase⟩

theorem Inv.act_refused (h : Inv concurrency waitingMax s) :
    Inv concurrency waitingMax (s.act concurrency waitingMax .refused) := by
  obtain ⟨hcore, hphase⟩ := h
  simp only [Polling.act]
  split
  · exact ⟨hcore.halt _, rfl⟩
  · exact ⟨hcore, hphase⟩

theorem Inv.act_slept (h : Inv concurrency waitingMax s) :
    Inv concurrency waitingMax (s.act concurrency waitingMax .slept) := by
  obtain ⟨hcore, hphase⟩ := h
  simp only [Polling.act]
  split
  · rename_i limit hp
    unfold PhaseOk at hphase
    rw [hp] at hphase
    refine ⟨hcore.request limit, hphase.1, hphase.2, fun updates hnone => ?_⟩
    cases hnone
  · exact ⟨hcore, hphase⟩

theorem Inv.act_goOn (h : Inv concurrency waitingMax s) :
    Inv concurrency waitingMax (s.act concurrency waitingMax .goOn) := by
  obtain ⟨hcore, hphase⟩ := h
  simp only [Polling.act]
  split_ifs
  · exact hcore.loopTop
  · exact ⟨hcore, hphase⟩

theorem Inv.act_handlerEnded (h : Inv concurrency waitingMax s) (task : Task) :
    Inv concurrency waitingMax (s.act concurrency waitingMax (.handlerEnded task)) := by
  obtain ⟨hcore, hphase⟩ := h
  simp only [Polling.act]
  split_ifs with htask hpaused
  · exact ⟨(hcore.finish htask.1 htask.2).withPhase _, trivial⟩
  · refine ⟨hcore.finish htask.1 htask.2, ?_⟩
    -- without a task nothing ends
    have hnotEmpty : s.work.inflight ≠ [] := List.ne_nil_of_mem htask.1
    unfold PhaseOk at hphase ⊢
    cases hp : s.phase with
    | idle =>
      rw [hp] at hphase
      exact absurd hphase.2.2 hnotEmpty
    | starting =>
      rw [hp] at hphase
      exact absurd hphase hnotEmpty
    | polling limit answer =>
      rw [hp] at hphase
      exact ⟨hphase.1, hphase.2.1.finish hcore.work htask.1, hphase.2.2⟩
    | retrying limit =>
      rw [hp] at hphase
      exact ⟨hphase.1, hphase.2.finish hcore.work htask.1⟩
    | paused => exact absurd hp hpaused
    | woken => trivial
    | draining failed =>
      rw [hp] at hphase
      exact hphase
    | settled failed =>
      rw [hp] at hphase
      exact absurd hphase.2 hnotEmpty
  · exact ⟨hcore, hphase⟩

theorem Inv.act_stop (h : Inv concurrency waitingMax s) :
    Inv concurrency waitingMax (s.act concurrency waitingMax .stop) := by
  obtain ⟨hcore, hphase⟩ := h
  simp only [Polling.act]
  split_ifs with hrunning
  · refine ⟨⟨hcore.work, hcore.ascending, hcore.received, hcore.known, hcore.covered, ?_,
      hcore.dropped, hcore.heads, hcore.waiting, fun hno => ?_, fun offset hsent => ?_,
      fun hdone => ?_⟩, ?_⟩
    · intro offset hoffset
      rcases List.mem_cons.mp hoffset with rfl | hoffset
      · exact le_rfl
      · exact hcore.requests offset hoffset
    · cases hno
    · injection hsent with hsent
      exact hsent.symm
    · cases hdone
    · unfold PhaseOk at hphase ⊢
      cases hp : s.phase with
      | idle =>
        rw [hp] at hphase
        rw [hphase.1] at hrunning
        cases hrunning
      | starting =>
        rw [hp] at hphase
        exact hphase
      | polling limit answer => rfl
      | retrying limit => rfl
      | paused => trivial
      | woken => trivial
      | draining failed => rfl
      | settled failed =>
        rw [hp] at hphase
        exact ⟨rfl, hphase.2⟩
  · exact ⟨hcore, hphase⟩

theorem Inv.act_stopAnswered (h : Inv concurrency waitingMax s) (ok : Bool) :
    Inv concurrency waitingMax (s.act concurrency waitingMax (.stopAnswered ok)) := by
  obtain ⟨hcore, hphase⟩ := h
  simp only [Polling.act]
  split
  · rename_i offset hsent
    have hoffset := hcore.stopSent offset hsent
    have hstopped : s.running = false := by
      cases hrunning : s.running with
      | false => rfl
      | true =>
        rw [hcore.stopIdle hrunning] at hsent
        cases hsent
    have hidle : s.phase ≠ .idle := by
      intro hp
      unfold PhaseOk at hphase
      rw [hp] at hphase
      have hnone := hphase.2.1
      rw [hsent] at hnone
      cases hnone
    split_ifs
    · have hdrop := hcore.drop hoffset.le
      refine ⟨⟨hdrop.work, hdrop.ascending, hdrop.received, hdrop.known, hdrop.covered,
        hdrop.requests, hdrop.dropped, hdrop.heads, hdrop.waiting, fun hrunning => ?_,
        fun offset' h => (by cases h), fun _ u hu => ?_⟩,
        (hphase.drop hcore.ascending offset).withStop hidle .succeeded⟩
      · have hrunning' : s.running = true := hrunning
        rw [hstopped] at hrunning'
        cases hrunning'
      · have hpending := (List.mem_filter.mp hu).2
        show s.offset ≤ u.id
        rw [← hoffset]
        simpa using hpending
    · refine ⟨⟨hcore.work, hcore.ascending, hcore.received, hcore.known, hcore.covered,
        hcore.requests, hcore.dropped, hcore.heads, hcore.waiting, fun hrunning => ?_,
        fun offset' h => (by cases h), fun h => (by cases h)⟩,
        hphase.withStop hidle .failed⟩
      have hrunning' : s.running = true := hrunning
      rw [hstopped] at hrunning'
      cases hrunning'
  · exact ⟨hcore, hphase⟩

theorem Inv.act_settle (h : Inv concurrency waitingMax s) :
    Inv concurrency waitingMax (s.act concurrency waitingMax .settle) := by
  obtain ⟨hcore, hphase⟩ := h
  simp only [Polling.act]
  split
  · rename_i failed hp
    split_ifs with hempty
    · unfold PhaseOk at hphase
      rw [hp] at hphase
      exact ⟨hcore.withPhase _, hphase, hempty⟩
    · exact ⟨hcore, hphase⟩
  · exact ⟨hcore, hphase⟩

/-- **Every event keeps the invariant.** -/
theorem Inv.act (h : Inv concurrency waitingMax s) (a : Act) :
    Inv concurrency waitingMax (s.act concurrency waitingMax a) := by
  cases a with
  | arrive update => exact h.act_arrive update
  | start => exact h.act_start
  | ready => exact h.act_ready
  | startFailed => exact h.act_startFailed
  | serve => exact h.act_serve
  | serveLate offset => exact h.act_serveLate offset
  | answered => exact h.act_answered
  | callFailed => exact h.act_callFailed
  | refused => exact h.act_refused
  | slept => exact h.act_slept
  | goOn => exact h.act_goOn
  | handlerEnded task => exact h.act_handlerEnded task
  | stop => exact h.act_stop
  | stopAnswered ok => exact h.act_stopAnswered ok
  | settle => exact h.act_settle

theorem Inv.run (concurrency waitingMax : ℕ) (acts : List Act) :
    Inv concurrency waitingMax (Lib.run (Polling.act concurrency waitingMax) Polling.start acts) :=
  run_induction Inv.start (fun _ a h => h.act a) acts

/-- The updates of a key received before one that is handed over have ended. -/
theorem Inv.ended_before (h : Inv concurrency waitingMax s) {u v : Update} {key : UpdateKey}
    (hu : u ∈ s.received) (hukey : updateKey u = some key) (hv : v ∈ s.work.handed)
    (hvkey : updateKey v = some key) (hlt : u.id < v.id) : u ∈ s.work.ended := by
  rcases (h.core.covered u).mp hu with hended | ⟨x, hx, rfl⟩
  · exact hended
  · exfalso
    rcases (h.core.work.handed v).mp hv with hvended | ⟨y, hy, hys, rfl⟩
    · have := h.core.work.serial v hvended x hx key hvkey hukey
      unfold Task.id at this
      omega
    · obtain ⟨rest, htasks, -, hafter, -⟩ := h.core.work.head_of_started hy hys hvkey
      have hxq : x ∈ s.work.queue key := Work.mem_queue.mpr ⟨hx, hukey⟩
      rw [htasks] at hxq
      rcases List.mem_cons.mp hxq with rfl | hrest
      · omega
      · have := hafter x hrest
        unfold Task.id at this
        omega

/-- What is not handed over yet waits behind an earlier update of its key that runs. -/
theorem Inv.handed_or_behind (h : Inv concurrency waitingMax s) {u : Update} (hu : u ∈ s.received) :
    u ∈ s.work.handed ∨ ∃ key, updateKey u = some key ∧
      ∃ y ∈ s.work.inflight, y.started = true ∧ updateKey y.update = some key ∧ y.id < u.id := by
  rcases (h.core.covered u).mp hu with hended | ⟨x, hx, rfl⟩
  · exact .inl ((h.core.work.handed u).mpr (.inl hended))
  · cases hs : x.started with
    | true => exact .inl ((h.core.work.handed _).mpr (.inr ⟨x, hx, hs, rfl⟩))
    | false =>
      right
      cases hkey : updateKey x.update with
      | none =>
        rw [h.core.work.keyless x hx hkey] at hs
        cases hs
      | some key =>
        refine ⟨key, rfl, ?_⟩
        have hxq : x ∈ s.work.queue key := Work.mem_queue.mpr ⟨hx, hkey⟩
        rcases h.core.work.queues key with ⟨htasks, -⟩ | ⟨first, rest, htasks, hfirst, -, -, -⟩
        · rw [htasks] at hxq
          cases hxq
        · have hfq : first ∈ s.work.queue key := by
            rw [htasks]
            exact List.mem_cons_self
          obtain ⟨hin, hfkey⟩ := Work.mem_queue.mp hfq
          refine ⟨first, hin, hfirst, hfkey, ?_⟩
          obtain ⟨rest', htasks', -, hafter, -⟩ := h.core.work.head_of_started hin hfirst hfkey
          rw [htasks'] at hxq
          rcases List.mem_cons.mp hxq with rfl | hrest
          · rw [hfirst] at hs
            cases hs
          · exact hafter x hrest

end Loop

end Polling

/-- What the loop promises of a state. -/
structure PollingSound (concurrency waitingMax : ℕ) (s : Polling) : Prop where
  /-- the received updates are, in their order, what arrived below the offset -/
  received : s.received = s.telegram.arrived.filter (fun u => u.id < s.offset)
  /-- `handleUpdate` is called once for an update, and for received ones only -/
  once : (s.work.handed.map Update.id).Nodup
  handed : ∀ u ∈ s.work.handed, u ∈ s.received
  /-- it is called at once, unless an earlier update of the same key still runs -/
  behind : ∀ u ∈ s.received, u ∈ s.work.handed ∨ ∃ key, updateKey u = some key ∧
    ∃ y ∈ s.work.inflight, y.started = true ∧ updateKey y.update = some key ∧ y.id < u.id
  /-- and then the earlier updates of its key have ended -/
  inOrder : ∀ u ∈ s.received, ∀ v ∈ s.work.handed, ∀ key, updateKey u = some key →
    updateKey v = some key → u.id < v.id → u ∈ s.work.ended
  running : (s.work.inflight.filter (fun x => x.started = true)).length ≤ concurrency
  waiting : (s.work.inflight.filter (fun x => x.started = false)).length ≤ waitingMax
  /-- the loop pauses only without room -/
  paused : s.phase = .paused →
    concurrency ≤ (s.work.inflight.filter (fun x => x.started = true)).length ∨
      waitingMax ≤ (s.work.inflight.filter (fun x => x.started = false)).length
  /-- `start` settles only when every received update's handler has ended -/
  settled : ∀ failed, s.phase = .settled failed → ∀ u ∈ s.received, u ∈ s.work.ended
  /-- Telegram has dropped nothing that was not received, and all of it once the stop's call succeeds -/
  dropped : ∀ u ∈ s.telegram.dropped, u ∈ s.received
  confirmed : s.stopCall = .succeeded → s.telegram.dropped = s.received

/-- **The polling loop loses, repeats and reorders nothing**, in every run from one start. -/
theorem polling_once (concurrency waitingMax : ℕ) (acts : List Polling.Act) :
    PollingSound concurrency waitingMax
      (Lib.run (Polling.act concurrency waitingMax) Polling.start acts) := by
  have h := Polling.Inv.run concurrency waitingMax acts
  generalize Lib.run (Polling.act concurrency waitingMax) Polling.start acts = s at h ⊢
  have hheads := h.core.work.heads_eq
  have hparts : (s.work.inflight.filter (fun x => x.started = true)).length +
      (s.work.inflight.filter (fun x => x.started = false)).length = s.work.inflight.length := by
    have hsum := List.length_eq_length_filter_add (l := s.work.inflight) (fun x => x.started)
    have hpos : s.work.inflight.filter (fun x => x.started = true) =
        s.work.inflight.filter (fun x => x.started) :=
      List.filter_congr (fun x _ => by simp)
    have hneg : s.work.inflight.filter (fun x => x.started = false) =
        s.work.inflight.filter (fun x => !x.started) :=
      List.filter_congr (fun x _ => by cases x.started <;> rfl)
    rw [hpos, hneg]
    omega
  have hwaiting : s.work.waiting =
      ((s.work.inflight.filter (fun x => x.started = false)).length : ℤ) := by
    unfold Work.waiting
    omega
  refine ⟨h.core.received, h.core.work.once, ?_, fun u hu => h.handed_or_behind hu, ?_, ?_, ?_, ?_, ?_,
    ?_, ?_⟩
  · intro u hu
    refine (h.core.covered u).mpr ?_
    rcases (h.core.work.handed u).mp hu with hended | ⟨x, hx, -, rfl⟩
    · exact .inl hended
    · exact .inr ⟨x, hx, rfl⟩
  · intro u hu v hv key hukey hvkey hlt
    exact h.ended_before hu hukey hv hvkey hlt
  · rw [← hheads]
    exact h.core.heads
  · have := h.core.waiting
    omega
  · intro hpaused
    have hphase := h.phase
    unfold Polling.PhaseOk at hphase
    rw [hpaused] at hphase
    have hfree := hphase.2
    unfold Polling.free at hfree
    omega
  · intro failed hsettled u hu
    have hphase := h.phase
    unfold Polling.PhaseOk at hphase
    rw [hsettled] at hphase
    rcases (h.core.covered u).mp hu with hended | ⟨x, hx, -⟩
    · exact hended
    · rw [hphase.2] at hx
      cases hx
  · intro u hu
    rw [h.core.received, List.mem_filter]
    refine ⟨List.mem_append_left _ hu, ?_⟩
    simpa using h.core.dropped u hu
  · intro hdone
    have hpending : s.telegram.pending.filter (fun u => u.id < s.offset) = [] := by
      rw [List.filter_eq_nil_iff]
      intro u hu
      have := h.core.stopDone hdone u hu
      simp only [decide_eq_true_eq]
      omega
    have hdropped : s.telegram.dropped.filter (fun u => u.id < s.offset) = s.telegram.dropped := by
      rw [List.filter_eq_self]
      intro u hu
      simpa using h.core.dropped u hu
    rw [h.core.received]
    unfold Telegram.arrived
    rw [List.filter_append, hdropped, hpending, List.append_nil]

-- the room is one update: the stop confirms that one and leaves the others to Telegram
example : (Lib.run (Polling.act 2 1) Polling.start
    [.start, .ready, .arrive ⟨7, [(some 1, none)]⟩, .arrive ⟨8, [(some 1, none)]⟩, .arrive ⟨9, []⟩, .serve,
      .answered, .stop, .stopAnswered true]).telegram.dropped.map Update.id = [7] := by
  decide +kernel

end Binarius
