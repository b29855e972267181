import Mathlib.Data.List.Nodup
import Mathlib.Data.List.Chain
import Mathlib.Tactic
import Binarius.Bot.Polling

/-!
# Bot.PollingWork — the updates in work

* `Queue`: the tasks of one key, the head started, the others each behind the one before.
* `Work.Inv`: **the invariant**; `Inv.dispatch` and `Inv.finish` keep it.
* `heads_eq`: the heads counted are the handlers that run.
-/

namespace Binarius

open Lib

namespace Work

/-- The tasks of a key, in order. -/
def queue (w : Work) (key : UpdateKey) : List Task :=
  w.inflight.filter (fun x => updateKey x.update = some key)

/-- The head of a key runs, and every other task waits for the one before it; the chain's tail is the
last. -/
inductive Queue (w : Work) (key : UpdateKey) : Prop
  | empty (tasks : w.queue key = []) (chain : w.chains.get? key = none)
  | headed (first : Task) (rest : List Task) (tasks : w.queue key = first :: rest)
      (starts : first.started = true) (waits : ∀ x ∈ rest, x.started = false)
      (links : List.IsChain (fun a b => b.after = some a.id) (first :: rest))
      (chain : w.chains.get? key = some ((first :: rest).getLast (List.cons_ne_nil _ _)).id)

/-- What holds of the updates in work in every state, `bound` being above every id so far. -/
structure Inv (w : Work) (bound : ℕ) : Prop where
  ids : (w.inflight.map Task.id).Pairwise (· < ·)
  below : ∀ x ∈ w.inflight, x.id < bound
  queues : ∀ key, w.Queue key
  keyless : ∀ x ∈ w.inflight, updateKey x.update = none → x.started = true
  unkeyed : w.unkeyed = (w.inflight.filter (fun x => updateKey x.update = none)).length
  handed : ∀ u, u ∈ w.handed ↔ u ∈ w.ended ∨ ∃ x ∈ w.inflight, x.started = true ∧ x.update = u
  once : (w.handed.map Update.id).Nodup
  ended : ∀ u ∈ w.ended, u.id < bound ∧ ∀ x ∈ w.inflight, x.id ≠ u.id
  serial : ∀ u ∈ w.ended, ∀ x ∈ w.inflight, ∀ key, updateKey u = some key →
    updateKey x.update = some key → u.id < x.id

theorem Inv.start : Work.start.Inv 0 where
  ids := List.Pairwise.nil
  below x hx := by cases hx
  queues key := .empty rfl rfl
  keyless x hx := by cases hx
  unkeyed := rfl
  handed u := by simp [Work.start]
  once := List.nodup_nil
  ended u hu := by cases hu
  serial u hu := by cases hu

/-! ### Dispatch -/

theorem mem_queue {w : Work} {key : UpdateKey} {x : Task} :
    x ∈ w.queue key ↔ x ∈ w.inflight ∧ updateKey x.update = some key := by
  unfold queue
  rw [List.mem_filter]
  simp

/-! A task put last: what every kind of dispatch shares. -/

section Snoc

variable {w : Work} {bound : ℕ} {task : Task} {key : UpdateKey}

theorem pairwise_snoc (h : w.Inv bound) (hid : bound ≤ task.id) :
    ((w.inflight ++ [task]).map Task.id).Pairwise (· < ·) := by
  rw [List.map_append, List.pairwise_append]
  refine ⟨h.ids, List.pairwise_singleton _ _, ?_⟩
  intro a ha b hb
  obtain ⟨x, hx, rfl⟩ := List.mem_map.mp ha
  have hb' : b = task.id := by simpa using hb
  have hx' := h.below x hx
  omega

theorem below_snoc (h : w.Inv bound) (hid : bound ≤ task.id) :
    ∀ x ∈ w.inflight ++ [task], x.id < task.id + 1 := by
  intro x hx
  rcases List.mem_append.mp hx with hx | hx
  · have := h.below x hx
    omega
  · rw [List.mem_singleton.mp hx]
    omega

theorem keyless_snoc (h : w.Inv bound) (hstarts : updateKey task.update = none → task.started = true) :
    ∀ x ∈ w.inflight ++ [task], updateKey x.update = none → x.started = true := by
  intro x hx hnone
  rcases List.mem_append.mp hx with hx | hx
  · exact h.keyless x hx hnone
  · obtain rfl := List.mem_singleton.mp hx
    exact hstarts hnone

theorem ended_snoc (h : w.Inv bound) (hid : bound ≤ task.id) :
    ∀ u ∈ w.ended, u.id < task.id + 1 ∧ ∀ x ∈ w.inflight ++ [task], x.id ≠ u.id := by
  intro u hu
  obtain ⟨hlt, hne⟩ := h.ended u hu
  refine ⟨by omega, fun x hx => ?_⟩
  rcases List.mem_append.mp hx with hx | hx
  · exact hne x hx
  · rw [List.mem_singleton.mp hx]
    omega

theorem serial_snoc (h : w.Inv bound) (hid : bound ≤ task.id) :
    ∀ u ∈ w.ended, ∀ x ∈ w.inflight ++ [task], ∀ key, updateKey u = some key →
      updateKey x.update = some key → u.id < x.id := by
  intro u hu x hx key hku hkx
  rcases List.mem_append.mp hx with hx | hx
  · exact h.serial u hu x hx key hku hkx
  · have := (h.ended u hu).1
    rw [List.mem_singleton.mp hx]
    omega

/-- A task that starts at once is handed over. -/
theorem handed_snoc (h : w.Inv bound) (hstarts : task.started = true) (u : Update) :
    u ∈ w.handed ++ [task.update] ↔
      u ∈ w.ended ∨ ∃ x ∈ w.inflight ++ [task], x.started = true ∧ x.update = u := by
  rw [List.mem_append, h.handed u, List.mem_singleton]
  constructor
  · rintro ((hu | ⟨x, hx, hs, rfl⟩) | rfl)
    · exact .inl hu
    · exact .inr ⟨x, List.mem_append_left _ hx, hs, rfl⟩
    · exact .inr ⟨_, List.mem_append_right _ (List.mem_singleton_self _), hstarts, rfl⟩
  · rintro (hu | ⟨x, hx, hs, rfl⟩)
    · exact .inl (.inl hu)
    · rcases List.mem_append.mp hx with hx | hx
      · exact .inl (.inr ⟨x, hx, hs, rfl⟩)
      · rw [List.mem_singleton.mp hx]
        exact .inr rfl

/-- One that waits is not. -/
theorem handed_snoc_waiting (h : w.Inv bound) (hwaits : task.started = false) (u : Update) :
    u ∈ w.handed ↔ u ∈ w.ended ∨ ∃ x ∈ w.inflight ++ [task], x.started = true ∧ x.update = u := by
  rw [h.handed u]
  constructor
  · rintro (hu | ⟨x, hx, hs, rfl⟩)
    · exact .inl hu
    · exact .inr ⟨x, List.mem_append_left _ hx, hs, rfl⟩
  · rintro (hu | ⟨x, hx, hs, rfl⟩)
    · exact .inl hu
    · rcases List.mem_append.mp hx with hx | hx
      · exact .inr ⟨x, hx, hs, rfl⟩
      · rw [List.mem_singleton.mp hx, hwaits] at hs
        cases hs

theorem once_snoc (h : w.Inv bound) (hid : bound ≤ task.id) :
    ((w.handed ++ [task.update]).map Update.id).Nodup := by
  rw [List.map_append, List.nodup_append]
  refine ⟨h.once, List.nodup_singleton _, ?_⟩
  intro a ha b hb hab
  obtain ⟨u, hu, rfl⟩ := List.mem_map.mp ha
  have hb' : b = task.id := by simpa [Task.id] using hb
  -- every id handed over so far is below the bound
  have hlt : u.id < bound := by
    rcases (h.handed u).mp hu with hended | ⟨x, hx, -, rfl⟩
    · exact (h.ended u hended).1
    · exact h.below x hx
  omega

theorem queue_snoc_other (hother : updateKey task.update ≠ some key) :
    (w.inflight ++ [task]).filter (fun x => updateKey x.update = some key) = w.queue key := by
  unfold queue
  rw [List.filter_append, List.filter_singleton]
  simp [hother]

theorem queue_snoc_self (hkey : updateKey task.update = some key) :
    (w.inflight ++ [task]).filter (fun x => updateKey x.update = some key) = w.queue key ++ [task] := by
  unfold queue
  rw [List.filter_append, List.filter_singleton]
  simp [hkey]

theorem unkeyed_snoc (h : w.Inv bound) (hkey : updateKey task.update = some key) :
    w.unkeyed = ((w.inflight ++ [task]).filter (fun x => updateKey x.update = none)).length := by
  rw [List.filter_append, List.length_append, ← h.unkeyed, List.filter_singleton]
  simp [hkey]

/-- The tasks of another key, and its chain, stay. -/
theorem queue_other {w' : Work} (h : w.Inv bound) (hother : updateKey task.update ≠ some key)
    (hinflight : w'.inflight = w.inflight ++ [task]) (hchains : w'.chains.get? key = w.chains.get? key) :
    w'.Queue key := by
  have hqueue : w'.queue key = w.queue key := by
    unfold queue
    rw [hinflight]
    exact queue_snoc_other hother
  rcases h.queues key with ⟨htasks, hchain⟩ | ⟨first, rest, htasks, hs, hw, hl, hchain⟩
  · exact .empty (hqueue.trans htasks) (hchains.trans hchain)
  · exact .headed first rest (hqueue.trans htasks) hs hw hl (hchains.trans hchain)

end Snoc

section Dispatch

variable {w : Work} {bound : ℕ} {update : Update} {key : UpdateKey}

/-- An update without a key starts at once. -/
theorem Inv.dispatch_keyless (h : w.Inv bound) (hid : bound ≤ update.id)
    (hkey : updateKey update = none) : (w.dispatch update).Inv (update.id + 1) := by
  have hdispatch : w.dispatch update =
      { w with inflight := w.inflight ++ [⟨update, none, true⟩], unkeyed := w.unkeyed + 1,
               handed := w.handed ++ [update] } := by
    unfold Work.dispatch
    rw [hkey]
  rw [hdispatch]
  have hid' : bound ≤ (⟨update, none, true⟩ : Task).id := hid
  refine ⟨pairwise_snoc h hid', below_snoc h hid', fun key => ?_,
    keyless_snoc h (fun _ => rfl), ?_, @handed_snoc w bound ⟨update, none, true⟩ h rfl,
    once_snoc h hid', ended_snoc h hid', serial_snoc h hid'⟩
  · refine queue_other h (fun heq => ?_) rfl rfl
    rw [hkey] at heq
    cases heq
  · show w.unkeyed + 1 = _
    rw [List.filter_append, List.length_append, ← h.unkeyed, List.filter_singleton]
    simp [hkey]

/-- The first update of a key starts at once, and the key's chain with it. -/
theorem Inv.dispatch_first (h : w.Inv bound) (hid : bound ≤ update.id)
    (hkey : updateKey update = some key) (htail : w.chains.get? key = none) :
    (w.dispatch update).Inv (update.id + 1) := by
  have hdispatch : w.dispatch update =
      { w with inflight := w.inflight ++ [⟨update, none, true⟩],
               chains := w.chains.set key update.id, handed := w.handed ++ [update] } := by
    unfold Work.dispatch
    simp only [hkey, htail]
  rw [hdispatch]
  have hid' : bound ≤ (⟨update, none, true⟩ : Task).id := hid
  refine ⟨pairwise_snoc h hid', below_snoc h hid', fun key' => ?_,
    keyless_snoc h (fun _ => rfl), unkeyed_snoc h hkey, @handed_snoc w bound ⟨update, none, true⟩ h rfl,
    once_snoc h hid', ended_snoc h hid', serial_snoc h hid'⟩
  by_cases hk : key = key'
  · subst hk
    have hempty : w.queue key = [] := by
      rcases h.queues key with ⟨htasks, -⟩ | ⟨first, rest, -, -, -, -, hchain⟩
      · exact htasks
      · rw [htail] at hchain
        cases hchain
    refine .headed ⟨update, none, true⟩ [] ?_ rfl (by simp) (List.isChain_singleton _) ?_
    · have hqueue := @queue_snoc_self w ⟨update, none, true⟩ key hkey
      rw [hempty] at hqueue
      exact hqueue
    · show (w.chains.set key update.id).get? key = some update.id
      rw [OrderedMap.get?_set, if_pos rfl]
  · refine queue_other h (fun heq => ?_) rfl ?_
    · exact hk (Option.some.inj (hkey.symm.trans heq))
    · show (w.chains.set key update.id).get? key' = _
      rw [OrderedMap.get?_set, if_neg hk]

/-- A later one of a key waits behind the key's last. -/
theorem Inv.dispatch_behind {tail : ℕ} (h : w.Inv bound) (hid : bound ≤ update.id)
    (hkey : updateKey update = some key) (htail : w.chains.get? key = some tail) :
    (w.dispatch update).Inv (update.id + 1) := by
  have hdispatch : w.dispatch update =
      { w with inflight := w.inflight ++ [⟨update, some tail, false⟩],
               chains := w.chains.set key update.id } := by
    unfold Work.dispatch
    simp only [hkey, htail]
  rw [hdispatch]
  have hid' : bound ≤ (⟨update, some tail, false⟩ : Task).id := hid
  have hkeyed : updateKey update ≠ none := by
    rw [hkey]
    exact Option.some_ne_none key
  refine ⟨pairwise_snoc h hid', below_snoc h hid', fun key' => ?_,
    keyless_snoc h (fun hnone => absurd hnone hkeyed), unkeyed_snoc h hkey,
    handed_snoc_waiting h rfl, h.once, ended_snoc h hid', serial_snoc h hid'⟩
  by_cases hk : key = key'
  · subst hk
    rcases h.queues key with ⟨-, hchain⟩ | ⟨first, rest, htasks, hs, hw, hl, hchain⟩
    · rw [htail] at hchain
      cases hchain
    · have hqueue := @queue_snoc_self w ⟨update, some tail, false⟩ key hkey
      rw [htasks, List.cons_append] at hqueue
      refine .headed first (rest ++ [(⟨update, some tail, false⟩ : Task)]) hqueue hs ?_ ?_ ?_
      · intro x hx
        rcases List.mem_append.mp hx with hx | hx
        · exact hw x hx
        · rw [List.mem_singleton.mp hx]
      · rw [← List.cons_append, List.isChain_append]
        refine ⟨hl, List.isChain_singleton _, ?_⟩
        intro a ha b hb
        have hb' : b = ⟨update, some tail, false⟩ := by simpa using hb.symm
        have ha' : a = (first :: rest).getLast (List.cons_ne_nil _ _) := by
          rw [List.getLast?_eq_getLast_of_ne_nil (List.cons_ne_nil _ _)] at ha
          simpa using ha.symm
        rw [htail] at hchain
        rw [hb', ha']
        exact hchain
      · show (w.chains.set key update.id).get? key = _
        rw [OrderedMap.get?_set, if_pos rfl]
        simp [Task.id]
  · refine queue_other h (fun heq => ?_) rfl ?_
    · exact hk (Option.some.inj (hkey.symm.trans heq))
    · show (w.chains.set key update.id).get? key' = _
      rw [OrderedMap.get?_set, if_neg hk]

/-- **A dispatched update keeps the invariant**: it starts at once, or waits behind its key. -/
theorem Inv.dispatch (h : w.Inv bound) (update : Update) (hid : bound ≤ update.id) :
    (w.dispatch update).Inv (update.id + 1) := by
  cases hkey : updateKey update with
  | none => exact h.dispatch_keyless hid hkey
  | some key =>
    cases htail : w.chains.get? key with
    | none => exact h.dispatch_first hid hkey htail
    | some tail => exact h.dispatch_behind hid hkey htail

end Dispatch

/-! ### The end of a handler -/

@[simp] theorem startAfter_update (id : ℕ) (x : Task) : (startAfter id x).update = x.update := by
  unfold startAfter
  split_ifs <;> rfl

@[simp] theorem startAfter_after (id : ℕ) (x : Task) : (startAfter id x).after = x.after := by
  unfold startAfter
  split_ifs <;> rfl

@[simp] theorem startAfter_id (id : ℕ) (x : Task) : (startAfter id x).id = x.id := by
  unfold Task.id
  rw [startAfter_update]

theorem startAfter_started (id : ℕ) (x : Task) :
    (startAfter id x).started = true ↔ x.started = true ∨ x.after = some id := by
  unfold startAfter
  split_ifs with h
  · simp [h]
  · simp [h]

/-- A started task, or one that waits for another, stays as it is. -/
theorem startAfter_eq {id : ℕ} {x : Task} (h : x.started = true ∨ x.after ≠ some id) :
    startAfter id x = x := by
  unfold startAfter
  split_ifs with hafter
  · rcases h with h | h
    · cases x
      simp_all
    · exact absurd hafter h
  · rfl

/-- Behind the head, every task waits for one of the queue. -/
theorem exists_link {first : Task} {rest : List Task}
    (hl : List.IsChain (fun a b : Task => b.after = some a.id) (first :: rest)) {x : Task}
    (hx : x ∈ rest) : ∃ a ∈ first :: rest, x.after = some a.id := by
  induction rest generalizing first with
  | nil => cases hx
  | cons next rest ih =>
    rw [List.isChain_cons_cons] at hl
    rcases List.mem_cons.mp hx with rfl | hx
    · exact ⟨first, List.mem_cons_self, hl.1⟩
    · obtain ⟨a, ha, hafter⟩ := ih hl.2 hx
      exact ⟨a, List.mem_cons_of_mem _ ha, hafter⟩

theorem length_filter_ne {l : List Task} {task : Task} (hids : (l.map Task.id).Nodup)
    (hmem : task ∈ l) : (l.filter (fun x => x.id ≠ task.id)).length + 1 = l.length := by
  induction l with
  | nil => cases hmem
  | cons a l ih =>
    rw [List.map_cons, List.nodup_cons] at hids
    by_cases ha : a.id = task.id
    · have hself : l.filter (fun x => x.id ≠ task.id) = l := by
        rw [List.filter_eq_self]
        intro x hx
        have hne : x.id ≠ task.id := by
          intro heq
          exact hids.1 (List.mem_map.mpr ⟨x, hx, heq.trans ha.symm⟩)
        simpa using hne
      rw [List.filter_cons_of_neg (by simpa using ha), hself, List.length_cons]
    · have hmem' : task ∈ l := by
        rcases List.mem_cons.mp hmem with rfl | hmem
        · exact absurd rfl ha
        · exact hmem
      rw [List.filter_cons_of_pos (by simpa using ha), List.length_cons, List.length_cons,
        ih hids.2 hmem']

section Finish

variable {w : Work} {bound : ℕ} {task : Task}

theorem Inv.nodup (h : w.Inv bound) : (w.inflight.map Task.id).Nodup :=
  h.ids.imp (fun hlt => ne_of_lt hlt)

theorem Inv.eq_of_id (h : w.Inv bound) {x y : Task} (hx : x ∈ w.inflight) (hy : y ∈ w.inflight)
    (hid : x.id = y.id) : x = y := List.inj_on_of_nodup_map h.nodup hx hy hid

/-- The ids of a key's tasks ascend. -/
theorem Inv.queue_ids (h : w.Inv bound) (key : UpdateKey) :
    ((w.queue key).map Task.id).Pairwise (· < ·) :=
  h.ids.sublist (List.filter_sublist.map _)

/-- A started task of a key is its head. -/
theorem Inv.head_of_started (h : w.Inv bound) (hmem : task ∈ w.inflight)
    (hstarted : task.started = true) {key : UpdateKey} (hkey : updateKey task.update = some key) :
    ∃ rest, w.queue key = task :: rest ∧ (∀ x ∈ rest, x.started = false) ∧
      (∀ x ∈ rest, task.id < x.id) ∧
      List.IsChain (fun a b : Task => b.after = some a.id) (task :: rest) ∧
      w.chains.get? key = some ((task :: rest).getLast (List.cons_ne_nil _ _)).id := by
  have hqueue : task ∈ w.queue key := mem_queue.mpr ⟨hmem, hkey⟩
  rcases h.queues key with ⟨htasks, -⟩ | ⟨first, rest, htasks, hs, hw, hl, hchain⟩
  · rw [htasks] at hqueue
    cases hqueue
  · rw [htasks] at hqueue
    have hfirst : task = first := by
      rcases List.mem_cons.mp hqueue with rfl | hrest
      · rfl
      · rw [hw task hrest] at hstarted
        cases hstarted
    subst hfirst
    have hids := h.queue_ids key
    rw [htasks, List.map_cons, List.pairwise_cons] at hids
    exact ⟨rest, htasks, hw, fun x hx => hids.1 _ (List.mem_map_of_mem hx), hl, hchain⟩

/-- The tasks of a key after the end of one handler. -/
theorem queue_finish (key : UpdateKey) :
    (w.finish task).queue key =
      ((w.queue key).filter (fun x => x.id ≠ task.id)).map (startAfter task.id) := by
  unfold queue Work.finish
  simp only
  rw [List.filter_map, List.filter_filter, List.filter_filter]
  congr 1
  refine List.filter_congr (fun x _ => ?_)
  simp [Bool.and_comm]

/-- Another key's tasks stay as they are. -/
theorem Inv.queue_finish_other (h : w.Inv bound) (hmem : task ∈ w.inflight) {key : UpdateKey}
    (hkey : updateKey task.update ≠ some key) : (w.finish task).queue key = w.queue key := by
  have hne : ∀ x ∈ w.queue key, x.id ≠ task.id := by
    intro x hx hid
    obtain ⟨hx', hxkey⟩ := mem_queue.mp hx
    rw [h.eq_of_id hx' hmem hid] at hxkey
    exact hkey hxkey
  have hself : (w.queue key).filter (fun x => x.id ≠ task.id) = w.queue key := by
    rw [List.filter_eq_self]
    intro x hx
    simpa using hne x hx
  -- nothing of the key waits for the task that ended
  have hstays : ∀ x ∈ w.queue key, startAfter task.id x = id x := by
    intro x hx
    refine startAfter_eq ?_
    rcases h.queues key with ⟨htasks, -⟩ | ⟨first, rest, htasks, hs, hw, hl, -⟩
    · rw [htasks] at hx
      cases hx
    · rw [htasks] at hx hne
      rcases List.mem_cons.mp hx with rfl | hrest
      · exact .inl hs
      · right
        obtain ⟨a, ha, hafter⟩ := exists_link hl hrest
        rw [hafter]
        intro heq
        injection heq with heq
        exact hne a ha heq
  rw [queue_finish, hself, List.map_congr_left hstays, List.map_id]

/-- The ended task's key goes on with the next one. -/
theorem Inv.queue_finish_self (h : w.Inv bound) (hmem : task ∈ w.inflight)
    (hstarted : task.started = true) {key : UpdateKey} (hkey : updateKey task.update = some key) :
    (w.finish task).Queue key := by
  obtain ⟨rest, htasks, hw, hafter, hl, hchain⟩ := h.head_of_started hmem hstarted hkey
  have hrest : (w.queue key).filter (fun x => x.id ≠ task.id) = rest := by
    rw [htasks, List.filter_cons_of_neg (by simp), List.filter_eq_self]
    intro x hx
    have := hafter x hx
    simpa using (ne_of_gt this)
  have hqueue := @queue_finish w task key
  rw [hrest] at hqueue
  have hchains : (w.finish task).chains =
      if w.chains.get? key = some task.id then w.chains.erase key else w.chains := by
    unfold Work.finish
    simp only [hkey]
  cases rest with
  | nil =>
    -- it was the tail too: the chain ends
    refine .empty hqueue ?_
    have htail : w.chains.get? key = some task.id := hchain
    rw [hchains, if_pos htail, OrderedMap.get?_erase, if_pos rfl]
  | cons next rest =>
    rw [List.isChain_cons_cons] at hl
    have hnext : startAfter task.id next = { next with started := true } := by
      unfold startAfter
      rw [if_pos hl.1]
    have hstays : ∀ x ∈ rest, startAfter task.id x = id x := by
      intro x hx
      refine startAfter_eq (.inr ?_)
      obtain ⟨a, ha, hlink⟩ := exists_link hl.2 hx
      rw [hlink]
      intro heq
      injection heq with heq
      have := hafter a ha
      omega
    have hmap : (next :: rest).map (startAfter task.id) = { next with started := true } :: rest := by
      rw [List.map_cons, hnext, List.map_congr_left hstays, List.map_id]
    have hlast : (task :: next :: rest).getLast (List.cons_ne_nil _ _) =
        (next :: rest).getLast (List.cons_ne_nil _ _) := List.getLast_cons (List.cons_ne_nil _ _)
    rw [hlast] at hchain
    have hne : ¬ w.chains.get? key = some task.id := by
      rw [hchain]
      intro heq
      injection heq with heq
      have := hafter _ (List.getLast_mem (List.cons_ne_nil next rest))
      omega
    rw [hmap] at hqueue
    refine .headed { next with started := true } rest hqueue rfl
      (fun x hx => hw x (List.mem_cons_of_mem _ hx)) ?_ ?_
    · cases rest with
      | nil => exact List.isChain_singleton _
      | cons third rest =>
        rw [List.isChain_cons_cons] at hl ⊢
        exact hl.2
    · rw [hchains, if_neg hne, hchain]
      cases rest with
      | nil => rfl
      | cons third rest => rfl

theorem mem_finish {x : Task} : x ∈ (w.finish task).inflight ↔
    ∃ y ∈ w.inflight, y.id ≠ task.id ∧ startAfter task.id y = x := by
  unfold Work.finish
  rw [List.mem_map]
  constructor
  · rintro ⟨y, hy, rfl⟩
    rw [List.mem_filter] at hy
    exact ⟨y, hy.1, by simpa using hy.2, rfl⟩
  · rintro ⟨y, hy, hne, rfl⟩
    refine ⟨y, ?_, rfl⟩
    rw [List.mem_filter]
    exact ⟨hy, by simpa using hne⟩

theorem mem_behind {id : ℕ} {x : Task} :
    x ∈ w.behind id ↔ x ∈ w.inflight ∧ x.after = some id ∧ x.started = false := by
  unfold behind
  rw [List.mem_filter]
  simp

/-- **The end of a handler keeps the invariant.** -/
theorem Inv.finish (h : w.Inv bound) (hmem : task ∈ w.inflight) (hstarted : task.started = true) :
    (w.finish task).Inv bound where
  ids := by
    have hmap : (w.finish task).inflight.map Task.id =
        (w.inflight.filter (fun x => x.id ≠ task.id)).map Task.id := by
      unfold Work.finish
      simp only [List.map_map]
      exact List.map_congr_left (fun x _ => startAfter_id task.id x)
    rw [hmap]
    exact h.ids.sublist (List.filter_sublist.map _)
  below x hx := by
    obtain ⟨y, hy, -, rfl⟩ := mem_finish.mp hx
    rw [startAfter_id]
    exact h.below y hy
  queues key := by
    by_cases hkey : updateKey task.update = some key
    · exact h.queue_finish_self hmem hstarted hkey
    · have hqueue := h.queue_finish_other hmem hkey
      have hget : (w.finish task).chains.get? key = w.chains.get? key := by
        unfold Work.finish
        simp only
        cases hother : updateKey task.update with
        | none => rfl
        | some other =>
          have hne : ¬ other = key := fun heq => hkey (by rw [hother, heq])
          simp only
          split_ifs
          · rw [OrderedMap.get?_erase, if_neg hne]
          · rfl
      rcases h.queues key with ⟨htasks, hchain⟩ | ⟨first, rest, htasks, hs, hw, hl, hchain⟩
      · exact .empty (hqueue.trans htasks) (hget.trans hchain)
      · exact .headed first rest (hqueue.trans htasks) hs hw hl (hget.trans hchain)
  keyless x hx hnone := by
    obtain ⟨y, hy, -, rfl⟩ := mem_finish.mp hx
    rw [startAfter_update] at hnone
    rw [startAfter_started]
    exact .inl (h.keyless y hy hnone)
  unkeyed := by
    have hfilter : ((w.finish task).inflight.filter (fun x => updateKey x.update = none)).length =
        ((w.inflight.filter (fun x => updateKey x.update = none)).filter
          (fun x => x.id ≠ task.id)).length := by
      unfold Work.finish
      simp only [List.filter_map, List.length_map, List.filter_filter]
      congr 1
      refine List.filter_congr (fun x _ => ?_)
      simp [Bool.and_comm]
    rw [hfilter]
    have hunkeyed := h.unkeyed
    have hnodup : ((w.inflight.filter (fun x => updateKey x.update = none)).map Task.id).Nodup :=
      h.nodup.sublist (List.filter_sublist.map _)
    unfold Work.finish
    simp only
    by_cases hkey : updateKey task.update = none
    · have hin : task ∈ w.inflight.filter (fun x => updateKey x.update = none) := by
        rw [List.mem_filter]
        exact ⟨hmem, by simpa using hkey⟩
      have hlength := length_filter_ne hnodup hin
      rw [if_pos hkey]
      omega
    · rw [if_neg hkey, hunkeyed]
      congr 1
      symm
      rw [List.filter_eq_self]
      intro x hx
      obtain ⟨hx', hnone⟩ := List.mem_filter.mp hx
      have hne : x.id ≠ task.id := by
        intro hid
        rw [h.eq_of_id hx' hmem hid] at hnone
        exact hkey (by simpa using hnone)
      simpa using hne
  handed u := by
    show u ∈ w.handed ++ (w.behind task.id).map (·.update) ↔ u ∈ w.ended ++ [task.update] ∨ _
    rw [List.mem_append, List.mem_append, List.mem_singleton, h.handed u]
    constructor
    · rintro ((hu | ⟨x, hx, hs, rfl⟩) | hu)
      · exact .inl (.inl hu)
      · by_cases hid : x.id = task.id
        · rw [h.eq_of_id hx hmem hid]
          exact .inl (.inr rfl)
        · right
          refine ⟨startAfter task.id x, mem_finish.mpr ⟨x, hx, hid, rfl⟩, ?_, startAfter_update _ _⟩
          rw [startAfter_started]
          exact .inl hs
      · obtain ⟨x, hx, rfl⟩ := List.mem_map.mp hu
        obtain ⟨hx', hafter, hs⟩ := mem_behind.mp hx
        have hid : x.id ≠ task.id := by
          intro hid
          rw [h.eq_of_id hx' hmem hid, hstarted] at hs
          cases hs
        right
        refine ⟨startAfter task.id x, mem_finish.mpr ⟨x, hx', hid, rfl⟩, ?_, startAfter_update _ _⟩
        rw [startAfter_started]
        exact .inr hafter
    · rintro ((hu | rfl) | ⟨x, hx, hs, rfl⟩)
      · exact .inl (.inl hu)
      · exact .inl (.inr ⟨task, hmem, hstarted, rfl⟩)
      · obtain ⟨y, hy, -, rfl⟩ := mem_finish.mp hx
        rw [startAfter_started] at hs
        rw [startAfter_update]
        cases hys : y.started with
        | true => exact .inl (.inr ⟨y, hy, hys, rfl⟩)
        | false =>
          have hafter : y.after = some task.id := by
            rcases hs with hs | hs
            · rw [hys] at hs
              cases hs
            · exact hs
          exact .inr (List.mem_map.mpr ⟨y, mem_behind.mpr ⟨hy, hafter, hys⟩, rfl⟩)
  once := by
    show ((w.handed ++ (w.behind task.id).map (·.update)).map Update.id).Nodup
    rw [List.map_append, List.map_map, List.nodup_append]
    refine ⟨h.once, h.nodup.sublist (List.filter_sublist.map _), ?_⟩
    intro a ha b hb hab
    obtain ⟨u, hu, rfl⟩ := List.mem_map.mp ha
    obtain ⟨x, hx, rfl⟩ := List.mem_map.mp hb
    obtain ⟨hx', -, hs⟩ := mem_behind.mp hx
    have hxu : x.id = u.id := hab.symm
    rcases (h.handed u).mp hu with hended | ⟨y, hy, hys, rfl⟩
    · exact (h.ended u hended).2 x hx' hxu
    · rw [h.eq_of_id hx' hy hxu, hys] at hs
      cases hs
  ended u hu := by
    have hu' : u ∈ w.ended ++ [task.update] := hu
    rcases List.mem_append.mp hu' with hu' | hu'
    · obtain ⟨hlt, hne⟩ := h.ended u hu'
      refine ⟨hlt, fun x hx => ?_⟩
      obtain ⟨y, hy, -, rfl⟩ := mem_finish.mp hx
      rw [startAfter_id]
      exact hne y hy
    · rw [List.mem_singleton.mp hu']
      refine ⟨h.below task hmem, fun x hx => ?_⟩
      obtain ⟨y, -, hne, rfl⟩ := mem_finish.mp hx
      rw [startAfter_id]
      exact hne
  serial u hu x hx key hku hkx := by
    have hu' : u ∈ w.ended ++ [task.update] := hu
    obtain ⟨y, hy, hne, rfl⟩ := mem_finish.mp hx
    rw [startAfter_update] at hkx
    rw [startAfter_id]
    rcases List.mem_append.mp hu' with hu' | hu'
    · exact h.serial u hu' y hy key hku hkx
    · rw [List.mem_singleton.mp hu'] at hku ⊢
      obtain ⟨rest, htasks, -, hafter, -⟩ := h.head_of_started hmem hstarted hku
      have hyq : y ∈ w.queue key := mem_queue.mpr ⟨hy, hkx⟩
      rw [htasks] at hyq
      rcases List.mem_cons.mp hyq with rfl | hrest
      · exact absurd rfl hne
      · exact hafter y hrest

/-! ### The two counts -/

/-- **An ended handler frees a head or a waiting place, and takes neither.** -/
theorem Inv.counts_finish (h : w.Inv bound) (hmem : task ∈ w.inflight) :
    (w.finish task).heads ≤ w.heads ∧ (w.finish task).waiting ≤ w.waiting := by
  have hlength : (w.finish task).inflight.length + 1 = w.inflight.length := by
    unfold Work.finish
    rw [List.length_map]
    exact length_filter_ne h.nodup hmem
  unfold waiting heads
  cases hkey : updateKey task.update with
  | none =>
    have hchains : (w.finish task).chains = w.chains := by
      unfold Work.finish
      simp only [hkey]
    have hunkeyed : (w.finish task).unkeyed = w.unkeyed - 1 := by
      unfold Work.finish
      simp only [hkey, if_true]
    have hin : task ∈ w.inflight.filter (fun x => updateKey x.update = none) := by
      rw [List.mem_filter]
      exact ⟨hmem, by simpa using hkey⟩
    have hpos := List.length_pos_of_mem hin
    rw [← h.unkeyed] at hpos
    rw [hchains, hunkeyed]
    constructor
    · omega
    · push_cast
      omega
  | some key =>
    have hunkeyed : (w.finish task).unkeyed = w.unkeyed := by
      unfold Work.finish
      simp [hkey]
    by_cases htail : w.chains.get? key = some task.id
    · have hchains : (w.finish task).chains = w.chains.erase key := by
        unfold Work.finish
        simp only [hkey, if_pos htail]
      have herase := OrderedMap.length_erase htail
      rw [hchains, hunkeyed]
      constructor
      · omega
      · push_cast
        omega
    · have hchains : (w.finish task).chains = w.chains := by
        unfold Work.finish
        simp only [hkey, if_neg htail]
      rw [hchains, hunkeyed]
      constructor
      · omega
      · push_cast
        omega

end Finish

/-- **A dispatched update takes a head or a waiting place.** -/
theorem counts_dispatch (w : Work) (update : Update) :
    ((w.dispatch update).heads = w.heads + 1 ∧ (w.dispatch update).waiting = w.waiting) ∨
      ((w.dispatch update).heads = w.heads ∧ (w.dispatch update).waiting = w.waiting + 1) := by
  unfold waiting heads Work.dispatch
  cases hkey : updateKey update with
  | none =>
    left
    simp only [List.length_append, List.length_singleton]
    constructor
    · omega
    · push_cast
      omega
  | some key =>
    cases htail : w.chains.get? key with
    | none =>
      left
      simp only [htail, OrderedMap.length_set, if_true, List.length_append, List.length_singleton]
      constructor
      · omega
      · push_cast
        omega
    | some tail =>
      right
      simp only [htail, OrderedMap.length_set, List.length_append, List.length_singleton, reduceCtorEq,
        if_false]
      constructor
      · trivial
      · push_cast
        omega

/-- **The heads counted are the handlers that run**: one per key with a chain and the keyless ones. -/
theorem Inv.heads_eq {w : Work} {bound : ℕ} (h : w.Inv bound) :
    w.heads = (w.inflight.filter (fun x => x.started = true)).length := by
  have hnodup : w.inflight.Nodup := List.Nodup.of_map _ h.nodup
  -- the keyed ones, by their keys, are the chains
  have hkeyed : (w.inflight.filter (fun x => x.started = true ∧ updateKey x.update ≠ none)).length =
      w.chains.entries.length := by
    have hleft : ((w.inflight.filter (fun x => x.started = true ∧ updateKey x.update ≠ none)).map
        (fun x => updateKey x.update)).Nodup := by
      refine List.Nodup.map_on ?_ (hnodup.filter _)
      intro x hx y hy hxy
      obtain ⟨hx', hxs⟩ := List.mem_filter.mp hx
      obtain ⟨hy', hys⟩ := List.mem_filter.mp hy
      simp only [decide_eq_true_eq] at hxs hys
      obtain ⟨key, hkey⟩ := Option.ne_none_iff_exists'.mp hxs.2
      obtain ⟨rest, htasks, hw, -, -, -⟩ := h.head_of_started hx' hxs.1 hkey
      have hyq : y ∈ w.queue key := mem_queue.mpr ⟨hy', hxy.symm.trans hkey⟩
      rw [htasks] at hyq
      rcases List.mem_cons.mp hyq with hyx | hrest
      · exact hyx.symm
      · rw [hw y hrest] at hys
        cases hys.1
    have hright : (w.chains.keys.map some).Nodup :=
      List.Nodup.map (Option.some_injective _) w.chains.nodup
    have hperm : ((w.inflight.filter (fun x => x.started = true ∧ updateKey x.update ≠ none)).map
        (fun x => updateKey x.update)).Perm (w.chains.keys.map some) := by
      rw [List.perm_ext_iff_of_nodup hleft hright]
      intro k
      rw [List.mem_map, List.mem_map]
      constructor
      · rintro ⟨x, hx, rfl⟩
        obtain ⟨hx', hxs⟩ := List.mem_filter.mp hx
        simp only [decide_eq_true_eq] at hxs
        obtain ⟨key, hkey⟩ := Option.ne_none_iff_exists'.mp hxs.2
        obtain ⟨rest, -, -, -, -, hchain⟩ := h.head_of_started hx' hxs.1 hkey
        exact ⟨key, OrderedMap.mem_keys.mpr ⟨_, hchain⟩, hkey.symm⟩
      · rintro ⟨key, hkey, rfl⟩
        obtain ⟨tail, htail⟩ := OrderedMap.mem_keys.mp hkey
        rcases h.queues key with ⟨-, hchain⟩ | ⟨first, rest, htasks, hs, -, -, -⟩
        · rw [hchain] at htail
          cases htail
        · have hfirst : first ∈ w.queue key := by
            rw [htasks]
            exact List.mem_cons_self
          obtain ⟨hin, hfkey⟩ := mem_queue.mp hfirst
          refine ⟨first, ?_, hfkey⟩
          rw [List.mem_filter]
          refine ⟨hin, ?_⟩
          simp [hs, hfkey]
    have hlength := hperm.length_eq
    rw [List.length_map, List.length_map] at hlength
    unfold OrderedMap.keys at hlength
    rw [List.length_map] at hlength
    exact hlength
  have hkeyless : (w.inflight.filter (fun x => x.started = true ∧ updateKey x.update = none)).length =
      w.unkeyed := by
    rw [h.unkeyed]
    congr 1
    refine List.filter_congr (fun x hx => ?_)
    by_cases hnone : updateKey x.update = none
    · simp [hnone, h.keyless x hx hnone]
    · simp [hnone]
  have hsplit : ∀ l : List Task, (l.filter (fun x => x.started = true)).length =
      (l.filter (fun x => x.started = true ∧ updateKey x.update ≠ none)).length +
        (l.filter (fun x => x.started = true ∧ updateKey x.update = none)).length := by
    intro l
    induction l with
    | nil => rfl
    | cons x l ih =>
      by_cases hs : x.started = true
      · by_cases hnone : updateKey x.update = none
        · simp only [List.filter_cons, hs, hnone] at ih ⊢
          simp only [ne_eq, not_true_eq_false, and_false, and_self, decide_true, decide_false, if_true,
            Bool.false_eq_true, if_false, List.length_cons] at ih ⊢
          omega
        · simp only [List.filter_cons, hs] at ih ⊢
          simp only [ne_eq, hnone, not_false_eq_true, and_false, and_self, decide_true, decide_false,
            if_true, Bool.false_eq_true, if_false, List.length_cons] at ih ⊢
          omega
      · simp only [List.filter_cons, hs] at ih ⊢
        simp only [false_and, decide_false, Bool.false_eq_true, if_false] at ih ⊢
        exact ih
  unfold heads
  rw [hsplit, hkeyed, hkeyless]

end Work

end Binarius
