import Mathlib.Tactic
import Binarius.Lib.Runs
import Binarius.Lib.History
import Binarius.Lib.TokenBucket
import Binarius.Bot.EditPacer

/-!
# Bot.EditPacing — the pacer's limits and its order, over whole runs

The log of a run says what was taken, what was answered and when.

* `Pace`: the bucket and the chats' gaps, read off the log; `chatFreeAt_le_iff`: a chat is free when its
  slots say so.
* `Queues`: the queues are the takes not answered yet, in order; `Queues.answer` is what answers do.
* `Armed`: the timer is due by the first moment a waiter could be served.
* `rounds_spec`, `pump_spec`: **what the pump keeps and how it ends**.
* `edit_pacer`: **the limits and the order of a run**.
-/

namespace Binarius

open Lib

/-! ## Reading the log -/

namespace PacerEntry

def slot? : PacerEntry → Option (EditWaiter × ℚ)
  | slot waiter moment _ => some (waiter, moment)
  | _ => none

def take? : PacerEntry → Option (EditWaiter × EditPriority)
  | take waiter priority => some (waiter, priority)
  | _ => none

/-- The take an entry answers. -/
def answered? : PacerEntry → Option ℕ
  | slot waiter _ _ => some waiter.id
  | dropped waiter _ => some waiter.id
  | closed waiter => some waiter.id
  | _ => none

def pause? : PacerEntry → Option ℚ
  | pause untilMs => some untilMs
  | _ => none

end PacerEntry

def slotsOf (log : List PacerEntry) : List (EditWaiter × ℚ) := log.filterMap PacerEntry.slot?

def takesOf (log : List PacerEntry) : List (EditWaiter × EditPriority) := log.filterMap PacerEntry.take?

def answeredOf (log : List PacerEntry) : List ℕ := log.filterMap PacerEntry.answered?

def pausesOf (log : List PacerEntry) : List ℚ := log.filterMap PacerEntry.pause?

/-- The takes of a priority not answered yet. -/
def waitingOf (log : List PacerEntry) (priority : EditPriority) : List EditWaiter :=
  ((takesOf log).filter (fun t => t.2 = priority ∧ t.1.id ∉ answeredOf log)).map Prod.fst

/-- The chat's slots are all a gap ago. -/
def FreeIn (o : EditPacerOptions) (log : List PacerEntry) (now : ℚ) (chatId : ℤ) : Prop :=
  ∀ s ∈ slotsOf log, s.1.chatId = chatId → s.2 + o.chatGapMs ≤ now

/-- A waiter still wanted gets a slot: after every pause's end, of a free chat; no wanted signal waiter of a
free chat waits behind a housekeeping one, and none of its own priority waits longer. -/
def SlotOk (o : EditPacerOptions) (before : List PacerEntry) (waiter : EditWaiter) (moment : ℚ)
    (wanted : ℕ → Bool) : Prop :=
  wanted waiter.id = true ∧ (∀ untilMs ∈ pausesOf before, untilMs ≤ moment) ∧
    ∃ priority, (waiter, priority) ∈ takesOf before ∧ waiter.id ∉ answeredOf before ∧
      FreeIn o before moment waiter.chatId ∧
      ∀ t ∈ takesOf before, t.1.id ∉ answeredOf before → wanted t.1.id = true →
        FreeIn o before moment t.1.chatId →
        (t.2 = .signal → priority = .signal) ∧ (t.2 = priority → waiter.id ≤ t.1.id)

/-- What an entry says of the log before it. -/
def PacerEntryOk (o : EditPacerOptions) (before : List PacerEntry) : PacerEntry → Prop
  | .take waiter _ => waiter.id = (takesOf before).length
  | .pause _ => True
  | .slot waiter moment wanted => SlotOk o before waiter moment wanted
  | .dropped waiter wanted => wanted waiter.id = false ∧ ∃ priority, (waiter, priority) ∈ takesOf before
  | .closed waiter => ∃ priority, (waiter, priority) ∈ takesOf before

def PacerLogOk (o : EditPacerOptions) (log : List PacerEntry) : Prop :=
  ∀ before e after, log = before ++ e :: after → PacerEntryOk o before e

section Log

variable {o : EditPacerOptions} {log es : List PacerEntry} {e : PacerEntry} {priority : EditPriority}

theorem slotsOf_append : slotsOf (log ++ es) = slotsOf log ++ slotsOf es := List.filterMap_append

theorem takesOf_append : takesOf (log ++ es) = takesOf log ++ takesOf es := List.filterMap_append

theorem answeredOf_append : answeredOf (log ++ es) = answeredOf log ++ answeredOf es := List.filterMap_append

theorem pausesOf_append : pausesOf (log ++ es) = pausesOf log ++ pausesOf es := List.filterMap_append

theorem mem_waitingOf {waiter : EditWaiter} : waiter ∈ waitingOf log priority ↔
    (waiter, priority) ∈ takesOf log ∧ waiter.id ∉ answeredOf log := by
  unfold waitingOf
  rw [List.mem_map]
  constructor
  · rintro ⟨⟨waiter', priority'⟩, ht, rfl⟩
    obtain ⟨hmem, hok⟩ := List.mem_filter.mp ht
    obtain ⟨rfl, hfresh⟩ := of_decide_eq_true hok
    exact ⟨hmem, hfresh⟩
  · rintro ⟨hmem, hfresh⟩
    exact ⟨(waiter, priority), List.mem_filter.mpr ⟨hmem, decide_eq_true ⟨rfl, hfresh⟩⟩, rfl⟩

/-- Entries that are no takes take out what they answer. -/
theorem waitingOf_append (htakes : takesOf es = []) : waitingOf (log ++ es) priority =
    (waitingOf log priority).filter (fun waiter => waiter.id ∉ answeredOf es) := by
  unfold waitingOf
  rw [takesOf_append, htakes, List.append_nil, answeredOf_append, List.filter_map, List.filter_filter]
  congr 1
  refine List.filter_congr (fun t _ => ?_)
  rw [Bool.eq_iff_iff, Bool.and_eq_true, Function.comp_apply]
  simp only [decide_eq_true_eq, List.mem_append, not_or]
  tauto

theorem PacerLogOk.append (h : PacerLogOk o log)
    (hes : ∀ before e after, es = before ++ e :: after → PacerEntryOk o (log ++ before) e) :
    PacerLogOk o (log ++ es) :=
  LogOk.append h hes

theorem PacerLogOk.snoc (h : PacerLogOk o log) (he : PacerEntryOk o log e) : PacerLogOk o (log ++ [e]) :=
  LogOk.snoc h he

end Log

/-! ## The queues -/

/-- The queues are the takes not answered yet, numbered in order; no take is answered twice. -/
structure Queues (p : EditPacer) : Prop where
  signal : p.signal = waitingOf p.log .signal
  housekeeping : p.housekeeping = waitingOf p.log .housekeeping
  ids : (takesOf p.log).map (fun t => t.1.id) = List.range p.taken
  once : (answeredOf p.log).Nodup
  known : ∀ id ∈ answeredOf p.log, id < p.taken

section Queues

variable {p p' : EditPacer} {es : List PacerEntry}

theorem Queues.ordered (h : Queues p) : (takesOf p.log).Pairwise (fun t t' => t.1.id < t'.1.id) := by
  have hrange := List.pairwise_lt_range (n := p.taken)
  rw [← h.ids, List.pairwise_map] at hrange
  exact hrange

theorem Queues.waiting_ordered (h : Queues p) (priority : EditPriority) :
    (waitingOf p.log priority).Pairwise (fun waiter waiter' => waiter.id < waiter'.id) := by
  unfold waitingOf
  rw [List.pairwise_map]
  exact h.ordered.sublist List.filter_sublist

/-- A number tells a take. -/
theorem Queues.eq_of_id (h : Queues p) {t t' : EditWaiter × EditPriority} (ht : t ∈ takesOf p.log)
    (ht' : t' ∈ takesOf p.log) (hid : t.1.id = t'.1.id) : t = t' := by
  have hnodup : ((takesOf p.log).map (fun t => t.1.id)).Nodup := by
    rw [h.ids]
    exact List.nodup_range
  exact List.inj_on_of_nodup_map hnodup ht ht' hid

theorem Queues.mem_waiting (h : Queues p) {waiter : EditWaiter} :
    waiter ∈ p.waiting ↔ ∃ priority, (waiter, priority) ∈ takesOf p.log ∧ waiter.id ∉ answeredOf p.log := by
  rw [EditPacer.waiting, List.mem_append, h.signal, h.housekeeping, mem_waitingOf, mem_waitingOf]
  constructor
  · rintro (hs | hs)
    · exact ⟨_, hs⟩
    · exact ⟨_, hs⟩
  · rintro ⟨priority, hs⟩
    cases priority with
    | signal => exact .inl hs
    | housekeeping => exact .inr hs

/-- A waiter of the one queue has no namesake in the other. -/
theorem Queues.not_housekeeping (h : Queues p) {waiter waiter' : EditWaiter} (hs : waiter ∈ p.signal)
    (hk : waiter' ∈ p.housekeeping) : waiter'.id ≠ waiter.id := by
  intro hid
  rw [h.signal, mem_waitingOf] at hs
  rw [h.housekeeping, mem_waitingOf] at hk
  have heq := h.eq_of_id hk.1 hs.1 hid
  cases heq

/-- **Answers** to waiting takes, each once: they leave the queues. -/
theorem Queues.answer (h : Queues p) (htakes : takesOf es = []) (hnodup : (answeredOf es).Nodup)
    (hwaiting : ∀ id ∈ answeredOf es, id < p.taken ∧ id ∉ answeredOf p.log) (hlog : p'.log = p.log ++ es)
    (htaken : p'.taken = p.taken)
    (hsignal : p'.signal = p.signal.filter (fun waiter => waiter.id ∉ answeredOf es))
    (hhousekeeping : p'.housekeeping = p.housekeeping.filter (fun waiter => waiter.id ∉ answeredOf es)) :
    Queues p' := by
  refine ⟨?_, ?_, ?_, ?_, fun id hid => ?_⟩
  · rw [hsignal, hlog, waitingOf_append htakes, h.signal]
  · rw [hhousekeeping, hlog, waitingOf_append htakes, h.housekeeping]
  · rw [hlog, htaken, takesOf_append, htakes, List.append_nil, h.ids]
  · rw [hlog, answeredOf_append, List.nodup_append]
    refine ⟨h.once, hnodup, ?_⟩
    intro id hid id' hid' heq
    exact (hwaiting id' hid').2 (heq ▸ hid)
  · rw [hlog, answeredOf_append] at hid
    rw [htaken]
    rcases List.mem_append.mp hid with hold | hnew
    · exact h.known id hold
    · exact (hwaiting id hnew).1

theorem Queues.lt_of_waiting (h : Queues p) {waiter : EditWaiter} (hw : waiter ∈ p.waiting) :
    waiter.id < p.taken ∧ waiter.id ∉ answeredOf p.log := by
  obtain ⟨priority, htake, hfresh⟩ := h.mem_waiting.mp hw
  have hmem : waiter.id ∈ (takesOf p.log).map (fun t => t.1.id) := List.mem_map_of_mem htake
  rw [h.ids] at hmem
  exact ⟨List.mem_range.mp hmem, hfresh⟩

/-- The waiting ones are told apart by their numbers. -/
theorem Queues.waiting_nodup (h : Queues p) : (p.waiting.map EditWaiter.id).Nodup := by
  have hordered : ∀ priority, ((waitingOf p.log priority).map EditWaiter.id).Nodup := by
    intro priority
    rw [List.Nodup, List.pairwise_map]
    exact (h.waiting_ordered priority).imp (fun hlt => hlt.ne)
  rw [EditPacer.waiting, List.map_append, List.nodup_append]
  refine ⟨by rw [h.signal]; exact hordered _, by rw [h.housekeeping]; exact hordered _, ?_⟩
  intro id hid id' hid' heq
  obtain ⟨waiter, hw, rfl⟩ := List.mem_map.mp hid
  obtain ⟨waiter', hw', rfl⟩ := List.mem_map.mp hid'
  exact h.not_housekeeping hw hw' heq.symm

end Queues

/-! ## The bucket and the gaps -/

/-- The bucket and the chats' gaps, by the slots given. -/
structure Pace (o : EditPacerOptions) (p : EditPacer) : Prop where
  bucket : Bucket o.burst (o.editsPerSecond / 1000) ((slotsOf p.log).map Prod.snd) p.tokens p.refilledAt
  gaps : (slotsOf p.log).Pairwise (fun s s' => s.1.chatId = s'.1.chatId → s.2 + o.chatGapMs ≤ s'.2)
  last : ∀ s ∈ slotsOf p.log, (∃ editedAt, p.lastEditAt.get? s.1.chatId = some editedAt ∧ s.2 ≤ editedAt) ∨
    s.2 + o.chatGapMs ≤ p.refilledAt
  edited : ∀ chatId editedAt, p.lastEditAt.get? chatId = some editedAt →
    ∃ s ∈ slotsOf p.log, s.1.chatId = chatId ∧ s.2 = editedAt

section Pace

variable {o : EditPacerOptions} {p p' : EditPacer} {now : ℚ}

theorem EditPacerOptions.rate_nonneg (o : EditPacerOptions) : 0 ≤ o.editsPerSecond / 1000 :=
  div_nonneg o.editsPerSecond_pos.le (by norm_num)

/-- **A chat is free** when all its slots are a gap ago. -/
theorem Pace.chatFreeAt_le_iff (h : Pace o p) (hnow : p.refilledAt ≤ now) (chatId : ℤ) :
    p.chatFreeAt o chatId ≤ (now : WithBot ℚ) ↔ FreeIn o p.log now chatId := by
  unfold EditPacer.chatFreeAt
  constructor
  · rintro hfree s hs rfl
    rcases h.last s hs with ⟨editedAt, hget, hle⟩ | hpast
    · rw [hget] at hfree
      have hgap := WithBot.coe_le_coe.mp hfree
      linarith
    · exact hpast.trans hnow
  · intro hfree
    cases hget : p.lastEditAt.get? chatId with
    | none => exact bot_le
    | some editedAt =>
      obtain ⟨s, hs, hchat, hmoment⟩ := h.edited chatId editedAt hget
      have hgap := hfree s hs hchat
      rw [hmoment] at hgap
      exact WithBot.coe_le_coe.mpr hgap

/-- Other fields and entries that are no slots do not matter. -/
theorem Pace.of_same (h : Pace o p) (hslots : slotsOf p'.log = slotsOf p.log)
    (hedits : p'.lastEditAt = p.lastEditAt) (htokens : p'.tokens = p.tokens)
    (hrefilled : p'.refilledAt = p.refilledAt) : Pace o p' := by
  obtain ⟨hbucket, hgaps, hlast, hedited⟩ := h
  refine ⟨?_, ?_, ?_, ?_⟩
  · rw [hslots, htokens, hrefilled]
    exact hbucket
  · rw [hslots]
    exact hgaps
  · rw [hslots, hedits, hrefilled]
    exact hlast
  · rw [hslots, hedits]
    exact hedited

theorem Pace.refill (h : Pace o p) (hnow : p.refilledAt ≤ now) : Pace o (p.refill o now) := by
  refine ⟨?_, h.gaps, fun s hs => ?_, h.edited⟩
  · have hbucket := h.bucket.refill o.rate_nonneg hnow
    rw [show o.editsPerSecond / 1000 * (now - p.refilledAt) = (now - p.refilledAt) * o.editsPerSecond / 1000 by
      ring] at hbucket
    exact hbucket
  · rcases h.last s hs with hin | hpast
    · exact .inl hin
    · exact .inr (hpast.trans hnow)

/-- A pump in a pause moves the clock and refills nothing. -/
theorem Pace.cut (h : Pace o p) (hnow : p.refilledAt ≤ now) :
    Pace o { p with refilledAt := max p.refilledAt now } := by
  rw [max_eq_right hnow]
  refine ⟨h.bucket.cut o.rate_nonneg hnow, h.gaps, fun s hs => ?_, h.edited⟩
  rcases h.last s hs with hin | hpast
  · exact .inl hin
  · exact .inr (hpast.trans hnow)

theorem Pace.prune (h : Pace o p) : Pace o (p.prune o p.refilledAt) := by
  refine ⟨h.bucket, h.gaps, fun s hs => ?_, fun chatId editedAt hget => ?_⟩
  · rcases h.last s hs with ⟨editedAt, hget, hle⟩ | hpast
    · by_cases hover : o.chatGapMs ≤ p.refilledAt - editedAt
      · right
        show s.2 + o.chatGapMs ≤ p.refilledAt
        linarith
      · left
        refine ⟨editedAt, OrderedMap.get?_filter_eq_some.mpr ⟨hget, ?_⟩, hle⟩
        rw [decide_eq_false hover]
        rfl
    · exact .inr hpast
  · exact h.edited chatId editedAt (OrderedMap.get?_filter_eq_some.mp hget).1

/-- **A slot** of a free chat, for a token. -/
theorem Pace.serve (h : Pace o p) {wanted : ℕ → Bool} {next : EditWaiter} (htokens : 1 ≤ p.tokens)
    (hfree : FreeIn o p.log p.refilledAt next.chatId) : Pace o (p.serve p.refilledAt wanted next) := by
  have hslots : slotsOf (p.log ++ [.slot next p.refilledAt wanted]) = slotsOf p.log ++ [(next, p.refilledAt)] := by
    rw [slotsOf_append]
    rfl
  have hpast : ∀ s ∈ slotsOf p.log, s.2 ≤ p.refilledAt :=
    fun s hs => h.bucket.past s.2 (List.mem_map_of_mem hs)
  refine ⟨?_, ?_, ?_, ?_⟩
  · show Bucket _ _ ((slotsOf (p.log ++ [.slot next p.refilledAt wanted])).map Prod.snd) _ _
    rw [hslots, List.map_append]
    exact h.bucket.take o.rate_nonneg htokens
  · show (slotsOf (p.log ++ [.slot next p.refilledAt wanted])).Pairwise _
    rw [hslots, List.pairwise_append]
    refine ⟨h.gaps, List.pairwise_singleton _ _, fun s hs s' hs' hchat => ?_⟩
    rw [List.mem_singleton.mp hs'] at hchat ⊢
    exact hfree s hs hchat
  · show ∀ s ∈ slotsOf (p.log ++ [.slot next p.refilledAt wanted]), _
    rw [hslots]
    intro s hs
    show (∃ editedAt, (p.lastEditAt.set next.chatId p.refilledAt).get? s.1.chatId = some editedAt ∧
      s.2 ≤ editedAt) ∨ _
    rw [OrderedMap.get?_set]
    by_cases hchat : next.chatId = s.1.chatId
    · rw [if_pos hchat]
      refine .inl ⟨_, rfl, ?_⟩
      rcases List.mem_append.mp hs with hold | hnew
      · exact hpast s hold
      · rw [List.mem_singleton.mp hnew]
    · rw [if_neg hchat]
      rcases List.mem_append.mp hs with hold | hnew
      · exact h.last s hold
      · rw [List.mem_singleton.mp hnew] at hchat
        exact absurd rfl hchat
  · show ∀ chatId editedAt, (p.lastEditAt.set next.chatId p.refilledAt).get? chatId = some editedAt →
      ∃ s ∈ slotsOf (p.log ++ [.slot next p.refilledAt wanted]), _
    intro chatId editedAt hget
    rw [hslots]
    rw [OrderedMap.get?_set] at hget
    split_ifs at hget with hchat
    · obtain rfl := Option.some.inj hget
      exact ⟨(next, p.refilledAt), List.mem_append_right _ (List.mem_singleton.mpr rfl), hchat, rfl⟩
    · obtain ⟨s, hs, hrest⟩ := h.edited chatId editedAt hget
      exact ⟨s, List.mem_append_left _ hs, hrest⟩

end Pace

/-! ## The timer -/

/-- Some waiter could be served at a moment, as things stand. -/
def Servable (o : EditPacerOptions) (p : EditPacer) (moment : ℚ) : Prop :=
  p.paused ≤ moment ∧ 1 ≤ (p.refill o moment).tokens ∧
    ∃ waiter ∈ p.waiting, p.chatFreeAt o waiter.chatId ≤ (moment : WithBot ℚ)

/-- The timer is due less than a millisecond after the first such moment. -/
def Armed (o : EditPacerOptions) (p : EditPacer) (clock : ℚ) : Prop :=
  ∃ due, p.timer = some due ∧ ∀ moment, clock ≤ moment → Servable o p moment → due < moment + 1

section Timer

variable {o : EditPacerOptions} {p : EditPacer} {now ms : ℚ}

/-- A timer armed for no later than any such moment. -/
theorem armed_arm (hms : 0 ≤ ms) (h : ∀ moment, now ≤ moment → Servable o p moment → now + ms ≤ moment) :
    Armed o (p.arm now ms) now := by
  refine ⟨_, rfl, fun moment hmoment hservable => ?_⟩
  have hle := h moment hmoment hservable
  have hceil : (⌈ms⌉ : ℚ) < ms + 1 := Int.ceil_lt_add_one ms
  have hmax : max 0 ⌈ms⌉ = ⌈ms⌉ := max_eq_right (Int.ceil_nonneg hms)
  rw [hmax]
  linarith

theorem earliestFree_le {waiters : List EditWaiter} {waiter : EditWaiter} (h : waiter ∈ waiters) :
    p.earliestFree o waiters ≤ p.chatFreeAt o waiter.chatId := by
  induction waiters with
  | nil => exact absurd h List.not_mem_nil
  | cons first waiters ih =>
    cases waiters with
    | nil => rw [List.mem_singleton.mp h, EditPacer.earliestFree]
    | cons second waiters =>
      rw [EditPacer.earliestFree]
      rcases List.mem_cons.mp h with rfl | hrest
      · exact min_le_left _ _
      · exact (min_le_right _ _).trans (ih hrest)
      · simp

/-- Where no waiter's chat is free, the first moment is ahead. -/
theorem lt_earliestFree {waiters : List EditWaiter} {bound : WithBot ℚ} (hne : waiters ≠ [])
    (h : ∀ waiter ∈ waiters, bound < p.chatFreeAt o waiter.chatId) : bound < p.earliestFree o waiters := by
  induction waiters with
  | nil => exact absurd rfl hne
  | cons first waiters ih =>
    cases waiters with
    | nil => exact h first List.mem_cons_self
    | cons second waiters =>
      rw [EditPacer.earliestFree]
      · refine lt_min (h first List.mem_cons_self) (ih (List.cons_ne_nil _ _) ?_)
        exact fun waiter hw => h waiter (List.mem_cons_of_mem _ hw)
      · simp

end Timer

/-! ## The pump -/

/-- What every step of the pump keeps. -/
structure PacerCore (o : EditPacerOptions) (p : EditPacer) : Prop where
  pace : Pace o p
  queues : Queues p
  log : PacerLogOk o p.log
  pauses : ∀ untilMs ∈ pausesOf p.log, untilMs ≤ p.paused

section Pump

variable {o : EditPacerOptions} {p p' : EditPacer} {now : ℚ} {wanted : ℕ → Bool} {next : EditWaiter}

/-- Fields the log does not read do not matter. -/
theorem PacerCore.of_same (h : PacerCore o p) (hlog : p'.log = p.log) (hpaused : p'.paused = p.paused)
    (hsignal : p'.signal = p.signal) (hhousekeeping : p'.housekeeping = p.housekeeping)
    (htaken : p'.taken = p.taken) (hpace : Pace o p') : PacerCore o p' := by
  refine ⟨hpace, ?_, by rw [hlog]; exact h.log, by rw [hlog, hpaused]; exact h.pauses⟩
  obtain ⟨hs, hk, hids, honce, hknown⟩ := h.queues
  refine ⟨?_, ?_, ?_, ?_, ?_⟩
  · rw [hsignal, hlog, hs]
  · rw [hhousekeeping, hlog, hk]
  · rw [hlog, htaken, hids]
  · rw [hlog]
    exact honce
  · rw [hlog, htaken]
    exact hknown

theorem answeredOf_dropped (waiters : List EditWaiter) (wanted : ℕ → Bool) :
    answeredOf (waiters.map (fun waiter => .dropped waiter wanted)) = waiters.map EditWaiter.id := by
  induction waiters with
  | nil => rfl
  | cons waiter waiters ih =>
    rw [List.map_cons, List.map_cons, ← ih]
    rfl

theorem answeredOf_closed (waiters : List EditWaiter) :
    answeredOf (waiters.map .closed) = waiters.map EditWaiter.id := by
  induction waiters with
  | nil => rfl
  | cons waiter waiters ih =>
    rw [List.map_cons, List.map_cons, ← ih]
    rfl

/-- Entries for waiters that are answered without a slot. -/
theorem answers_only (f : EditWaiter → PacerEntry)
    (hf : ∀ waiter, (f waiter).take? = none ∧ (f waiter).slot? = none ∧ (f waiter).pause? = none)
    (waiters : List EditWaiter) :
    takesOf (waiters.map f) = [] ∧ slotsOf (waiters.map f) = [] ∧ pausesOf (waiters.map f) = [] := by
  refine ⟨?_, ?_, ?_⟩
  · refine List.filterMap_eq_nil_iff.mpr (fun e he => ?_)
    obtain ⟨waiter, -, rfl⟩ := List.mem_map.mp he
    exact (hf waiter).1
  · refine List.filterMap_eq_nil_iff.mpr (fun e he => ?_)
    obtain ⟨waiter, -, rfl⟩ := List.mem_map.mp he
    exact (hf waiter).2.1
  · refine List.filterMap_eq_nil_iff.mpr (fun e he => ?_)
    obtain ⟨waiter, -, rfl⟩ := List.mem_map.mp he
    exact (hf waiter).2.2

/-- **Answers without a slot** to some of the waiting ones. -/
theorem PacerCore.answer (h : PacerCore o p) {f : EditWaiter → PacerEntry} {waiters : List EditWaiter}
    (hf : ∀ waiter, (f waiter).take? = none ∧ (f waiter).slot? = none ∧ (f waiter).pause? = none)
    (hanswered : answeredOf (waiters.map f) = waiters.map EditWaiter.id)
    (hwaiters : waiters.Sublist p.waiting)
    (hok : ∀ waiter ∈ waiters, ∀ before, (∃ priority, (waiter, priority) ∈ takesOf before) →
      PacerEntryOk o before (f waiter))
    (hlog : p'.log = p.log ++ waiters.map f) (htaken : p'.taken = p.taken) (hpaused : p'.paused = p.paused)
    (hsignal : p'.signal = p.signal.filter (fun waiter => waiter.id ∉ waiters.map EditWaiter.id))
    (hhousekeeping : p'.housekeeping = p.housekeeping.filter (fun waiter =>
      waiter.id ∉ waiters.map EditWaiter.id))
    (hedits : p'.lastEditAt = p.lastEditAt) (htokens : p'.tokens = p.tokens)
    (hrefilled : p'.refilledAt = p.refilledAt) : PacerCore o p' := by
  obtain ⟨htakes, hslots, hpauses⟩ := answers_only f hf waiters
  refine ⟨?_, ?_, ?_, ?_⟩
  · refine h.pace.of_same ?_ hedits htokens hrefilled
    rw [hlog, slotsOf_append, hslots, List.append_nil]
  · refine h.queues.answer htakes ?_ ?_ hlog htaken (by rw [hanswered]; exact hsignal)
      (by rw [hanswered]; exact hhousekeeping)
    · rw [hanswered]
      exact h.queues.waiting_nodup.sublist (hwaiters.map _)
    · rw [hanswered]
      intro id hid
      obtain ⟨waiter, hw, rfl⟩ := List.mem_map.mp hid
      exact h.queues.lt_of_waiting (hwaiters.subset hw)
  · rw [hlog]
    refine h.log.append (fun before e after heq => ?_)
    have he : e ∈ waiters.map f := by
      rw [heq]
      exact List.mem_append_right _ List.mem_cons_self
    obtain ⟨waiter, hw, rfl⟩ := List.mem_map.mp he
    obtain ⟨priority, htake, -⟩ := h.queues.mem_waiting.mp (hwaiters.subset hw)
    refine hok waiter hw _ ⟨priority, ?_⟩
    rw [takesOf_append]
    exact List.mem_append_left _ htake
  · rw [hlog, hpaused, pausesOf_append, hpauses, List.append_nil]
    exact h.pauses

/-- The unwanted leave; all who stay are wanted. -/
theorem PacerCore.drop (h : PacerCore o p) (wanted : ℕ → Bool) : PacerCore o (p.dropUnwanted wanted) ∧
    ∀ waiter ∈ (p.dropUnwanted wanted).waiting, wanted waiter.id = true := by
  have hleft : ∀ queue : List EditWaiter, (∀ waiter ∈ queue, waiter ∈ p.waiting) →
      queue.filter (fun waiter => wanted waiter.id) = queue.filter (fun waiter =>
        waiter.id ∉ (p.waiting.filter (fun waiter => !wanted waiter.id)).map EditWaiter.id) := by
    intro queue hqueue
    refine List.filter_congr (fun waiter hw => ?_)
    rw [Bool.eq_iff_iff, decide_eq_true_iff]
    constructor
    · intro hyes hmem
      obtain ⟨waiter', hw', hid⟩ := List.mem_map.mp hmem
      have hno := (List.mem_filter.mp hw').2
      rw [hid, hyes] at hno
      cases hno
    · intro hnot
      by_contra hno
      exact hnot (List.mem_map_of_mem (List.mem_filter.mpr ⟨hqueue waiter hw, by simpa using hno⟩))
  refine ⟨?_, fun waiter hw => ?_⟩
  · refine h.answer (f := fun waiter => .dropped waiter wanted) (fun waiter => ⟨rfl, rfl, rfl⟩)
      (answeredOf_dropped (p.waiting.filter (fun waiter => !wanted waiter.id)) wanted) List.filter_sublist
      (fun waiter hw before htake => ⟨?_, htake⟩) rfl rfl rfl
      (hleft _ (fun waiter hw => List.mem_append_left _ hw)) (hleft _ (fun waiter hw => List.mem_append_right _ hw))
      rfl rfl rfl
    simpa using (List.mem_filter.mp hw).2
  · rcases List.mem_append.mp hw with hs | hk
    · exact (List.mem_filter.mp hs).2
    · exact (List.mem_filter.mp hk).2

theorem find_first {waiters : List EditWaiter} {free : EditWaiter → Bool}
    (hordered : waiters.Pairwise (fun waiter waiter' => waiter.id < waiter'.id))
    (hfind : waiters.find? free = some next) {waiter : EditWaiter} (hw : waiter ∈ waiters)
    (hfree : free waiter = true) : next.id ≤ waiter.id := by
  obtain ⟨-, front, back, rfl, hfront⟩ := List.find?_eq_some_iff_append.mp hfind
  rcases List.mem_append.mp hw with hin | hin
  · have hno := hfront waiter hin
    rw [hfree] at hno
    cases hno
  · rcases List.mem_cons.mp hin with rfl | hlater
    · exact le_refl _
    · exact ((List.pairwise_cons.mp (List.pairwise_append.mp hordered).2.1).1 waiter hlater).le

/-- **Whom a round serves.** -/
theorem PacerCore.slotOk (h : PacerCore o p) (hpaused : p.paused ≤ p.refilledAt)
    (hwanted : ∀ waiter ∈ p.waiting, wanted waiter.id = true)
    (hfind : p.waiting.find? (fun waiter =>
      decide (p.chatFreeAt o waiter.chatId ≤ (p.refilledAt : WithBot ℚ))) = some next) :
    SlotOk o p.log next p.refilledAt wanted := by
  have hnext := List.find?_some
    (p := fun waiter : EditWaiter => decide (p.chatFreeAt o waiter.chatId ≤ (p.refilledAt : WithBot ℚ))) hfind
  have hfreeNext : FreeIn o p.log p.refilledAt next.chatId :=
    (h.pace.chatFreeAt_le_iff (le_refl _) _).mp (of_decide_eq_true hnext)
  have hfree : ∀ t : EditWaiter × EditPriority, FreeIn o p.log p.refilledAt t.1.chatId →
      decide (p.chatFreeAt o t.1.chatId ≤ (p.refilledAt : WithBot ℚ)) = true :=
    fun t ht => decide_eq_true ((h.pace.chatFreeAt_le_iff (le_refl _) _).mpr ht)
  refine ⟨hwanted next (List.mem_of_find?_eq_some hfind), fun untilMs hu => (h.pauses untilMs hu).trans hpaused, ?_⟩
  rw [EditPacer.waiting, List.find?_append] at hfind
  cases hs : p.signal.find? (fun waiter =>
      decide (p.chatFreeAt o waiter.chatId ≤ (p.refilledAt : WithBot ℚ))) with
  | some first =>
    rw [hs, Option.some_or] at hfind
    obtain rfl := Option.some.inj hfind
    have hmem := List.mem_of_find?_eq_some hs
    rw [h.queues.signal, mem_waitingOf] at hmem
    refine ⟨.signal, hmem.1, hmem.2, hfreeNext, fun t ht hfresh _ htfree => ⟨fun _ => rfl, fun hpriority => ?_⟩⟩
    have htwaiting : t.1 ∈ p.signal := by
      rw [h.queues.signal, mem_waitingOf, ← hpriority]
      exact ⟨ht, hfresh⟩
    have hordered := h.queues.waiting_ordered .signal
    rw [← h.queues.signal] at hordered
    exact find_first hordered hs htwaiting (hfree t htfree)
  | none =>
    rw [hs, Option.none_or] at hfind
    have hmem := List.mem_of_find?_eq_some hfind
    rw [h.queues.housekeeping, mem_waitingOf] at hmem
    refine ⟨.housekeeping, hmem.1, hmem.2, hfreeNext, fun t ht hfresh _ htfree => ⟨fun hsignal => ?_,
      fun hpriority => ?_⟩⟩
    · -- a free signal waiter would have been found first
      have htwaiting : t.1 ∈ p.signal := by
        rw [h.queues.signal, mem_waitingOf, ← hsignal]
        exact ⟨ht, hfresh⟩
      exact absurd (hfree t htfree) (List.find?_eq_none.mp hs t.1 htwaiting)
    · have htwaiting : t.1 ∈ p.housekeeping := by
        rw [h.queues.housekeeping, mem_waitingOf, ← hpriority]
        exact ⟨ht, hfresh⟩
      have hordered := h.queues.waiting_ordered .housekeeping
      rw [← h.queues.housekeeping] at hordered
      exact find_first hordered hfind htwaiting (hfree t htfree)

/-- A queue without one of its waiters. -/
theorem erase_eq_filter {waiters : List EditWaiter}
    (hordered : waiters.Pairwise (fun waiter waiter' => waiter.id < waiter'.id)) (hmem : next ∈ waiters) :
    waiters.erase next = waiters.filter (fun waiter => waiter.id ∉ [next.id]) := by
  have hnodup : waiters.Nodup := hordered.imp (fun hlt heq => by rw [heq] at hlt; exact lt_irrefl _ hlt)
  have hids : (waiters.map EditWaiter.id).Nodup := by
    rw [List.Nodup, List.pairwise_map]
    exact hordered.imp (fun hlt => hlt.ne)
  rw [hnodup.erase_eq_filter]
  refine List.filter_congr (fun waiter hw => ?_)
  rw [Bool.eq_iff_iff, bne_iff_ne, decide_eq_true_iff, List.mem_singleton]
  exact not_congr ⟨fun heq => by rw [heq], fun hid => List.inj_on_of_nodup_map hids hw hmem hid⟩

/-- A slot given. -/
theorem PacerCore.serve (h : PacerCore o p) (htokens : 1 ≤ p.tokens) (hwaiting : next ∈ p.waiting)
    (hok : SlotOk o p.log next p.refilledAt wanted) : PacerCore o (p.serve p.refilledAt wanted next) := by
  have hanswered : answeredOf [PacerEntry.slot next p.refilledAt wanted] = [next.id] := rfl
  refine ⟨?_, ?_, h.log.snoc hok, ?_⟩
  · obtain ⟨-, -, priority, -, -, hfree, -⟩ := hok
    exact h.pace.serve htokens hfree
  · have hsignal := h.queues.waiting_ordered .signal
    have hhousekeeping := h.queues.waiting_ordered .housekeeping
    rw [← h.queues.signal] at hsignal
    rw [← h.queues.housekeeping] at hhousekeeping
    have hnone : ∀ queue : List EditWaiter, (∀ waiter ∈ queue, waiter.id ≠ next.id) →
        queue = queue.filter (fun waiter => waiter.id ∉ [next.id]) := by
      intro queue hne
      refine (List.filter_eq_self.mpr (fun waiter hw => decide_eq_true ?_)).symm
      rw [List.mem_singleton]
      exact hne waiter hw
    refine @Queues.answer _ _ [.slot next p.refilledAt wanted] h.queues rfl (List.nodup_singleton _) ?_ rfl rfl ?_ ?_
    · intro id hid
      rw [hanswered] at hid
      rw [List.mem_singleton.mp hid]
      exact h.queues.lt_of_waiting hwaiting
    · show (if next ∈ p.signal then p.signal.erase next else p.signal) = _
      rw [hanswered]
      split_ifs with hs
      · exact erase_eq_filter hsignal hs
      · refine hnone _ (fun waiter hw => ?_)
        have hk : next ∈ p.housekeeping := (List.mem_append.mp hwaiting).resolve_left hs
        exact fun hid => h.queues.not_housekeeping hw hk hid.symm
    · show (if next ∈ p.signal then p.housekeeping else p.housekeeping.erase next) = _
      rw [hanswered]
      split_ifs with hs
      · exact hnone _ (fun waiter hw => h.queues.not_housekeeping hs hw)
      · exact erase_eq_filter hhousekeeping ((List.mem_append.mp hwaiting).resolve_left hs)
  · show ∀ untilMs ∈ pausesOf (p.log ++ [.slot next p.refilledAt wanted]), untilMs ≤ p.paused
    rw [pausesOf_append]
    intro untilMs hu
    rcases List.mem_append.mp hu with hold | hnew
    · exact h.pauses untilMs hold
    · exact absurd hnew List.not_mem_nil


theorem dropUnwanted_length (p : EditPacer) (wanted : ℕ → Bool) :
    (p.dropUnwanted wanted).waiting.length ≤ p.waiting.length := by
  show (p.signal.filter _ ++ p.housekeeping.filter _).length ≤ (p.signal ++ p.housekeeping).length
  rw [List.length_append, List.length_append]
  exact Nat.add_le_add (List.length_filter_le _ _) (List.length_filter_le _ _)

theorem serve_length (hwaiting : next ∈ p.waiting) :
    (p.serve now wanted next).waiting.length + 1 = p.waiting.length := by
  show ((if next ∈ p.signal then p.signal.erase next else p.signal) ++
    (if next ∈ p.signal then p.housekeeping else p.housekeeping.erase next)).length + 1 =
      (p.signal ++ p.housekeeping).length
  by_cases hs : next ∈ p.signal
  · have hlen := List.length_erase_add_one hs
    rw [if_pos hs, if_pos hs, List.length_append, List.length_append]
    omega
  · have hlen := List.length_erase_add_one ((List.mem_append.mp hwaiting).resolve_left hs)
    rw [if_neg hs, if_neg hs, List.length_append, List.length_append]
    omega

/-- How a pump ends: no one waits, or the timer is armed. -/
structure PumpEnd (o : EditPacerOptions) (p : EditPacer) (now : ℚ) (p' : EditPacer) : Prop where
  core : PacerCore o p'
  refilledAt : p'.refilledAt = now
  closed : p'.closed = p.closed
  armed : p'.waiting = [] ∨ Armed o p' now

/-- The timer of a pump that ends waiting. -/
theorem PacerCore.arm (h : PacerCore o p) (hrefilled : p.refilledAt = now) (ms : ℚ) (hms : 0 ≤ ms)
    (hservable : ∀ moment, now ≤ moment → Servable o p moment → now + ms ≤ moment) :
    PumpEnd o p now (p.arm now ms) :=
  ⟨h.of_same rfl rfl rfl rfl rfl (h.pace.of_same rfl rfl rfl rfl), hrefilled, rfl,
    .inr (armed_arm hms hservable)⟩

/-- Too few tokens: the moment the next one is there. -/
theorem PacerCore.arm_tokens (h : PacerCore o p) (hrefilled : p.refilledAt = now) (htokens : p.tokens < 1) :
    PumpEnd o p now (p.arm now ((1 - p.tokens) * 1000 / o.editsPerSecond)) := by
  have hrate := o.editsPerSecond_pos
  refine h.arm hrefilled _ (div_nonneg (by linarith) hrate.le) (fun moment _ hservable => ?_)
  have hone : 1 ≤ min o.burst (p.tokens + (moment - p.refilledAt) * o.editsPerSecond / 1000) := hservable.2.1
  have hrefill := hone.trans (min_le_right _ _)
  rw [hrefilled] at hrefill
  have hdiv : (1 - p.tokens) * 1000 / o.editsPerSecond ≤ moment - now := by
    rw [div_le_iff₀ hrate]
    linarith
  linarith

/-- No chat is free: the moment the first one is. -/
theorem PacerCore.arm_chats (h : PacerCore o p) (hrefilled : p.refilledAt = now) (hne : p.waiting ≠ [])
    (hnone : p.waiting.find? (fun waiter => decide (p.chatFreeAt o waiter.chatId ≤ (now : WithBot ℚ))) = none) :
    PumpEnd o p now (p.arm now ((p.earliestFree o p.waiting).unbotD now - now)) := by
  have hahead : (now : WithBot ℚ) < p.earliestFree o p.waiting := by
    refine lt_earliestFree hne (fun waiter hw => ?_)
    have hnot := List.find?_eq_none.mp hnone waiter hw
    rw [decide_eq_true_iff] at hnot
    exact not_le.mp hnot
  obtain ⟨first, hfirst⟩ := WithBot.ne_bot_iff_exists.mp (bot_le.trans_lt hahead).ne'
  rw [← hfirst] at hahead ⊢
  have hlt : now < first := WithBot.coe_lt_coe.mp hahead
  rw [WithBot.unbotD_coe]
  refine h.arm hrefilled _ (by linarith) (fun moment _ hservable => ?_)
  obtain ⟨-, -, waiter, hw, hfree⟩ := hservable
  have hle := (earliestFree_le hw).trans hfree
  rw [← hfirst] at hle
  have := WithBot.coe_le_coe.mp hle
  linarith

/-- **The rounds of a pump** keep the core and end with no one waiting or the timer armed. -/
theorem rounds_spec (wanted : ℕ → ℕ → Bool) (n : ℕ) (p : EditPacer) (h : PacerCore o p)
    (hrefilled : p.refilledAt = now) (hpaused : p.paused ≤ now) (hlen : p.waiting.length < n) :
    PumpEnd o p now (p.rounds o now wanted n) := by
  induction n generalizing p with
  | zero => exact absurd hlen (Nat.not_lt_zero _)
  | succ n ih =>
    obtain ⟨hcore, hall⟩ := h.drop (wanted n)
    have hdropped := dropUnwanted_length p (wanted n)
    rw [EditPacer.rounds]
    generalize hq : p.dropUnwanted (wanted n) = q at hcore hall hdropped
    have hqr : q.refilledAt = now := by rw [← hq]; exact hrefilled
    have hqp : q.paused ≤ now := by rw [← hq]; exact hpaused
    have hqc : q.closed = p.closed := by rw [← hq]; rfl
    have hends : ∀ p', PumpEnd o q now p' → PumpEnd o p now p' :=
      fun p' hend => ⟨hend.core, hend.refilledAt, hend.closed.trans hqc, hend.armed⟩
    refine hends _ ?_
    show PumpEnd o q now (if q.waiting = [] then q else if q.tokens < 1 then _ else _)
    split_ifs with hempty htokens
    · exact ⟨hcore, hqr, rfl, .inl hempty⟩
    · exact hcore.arm_tokens hqr htokens
    · split
      · rename_i hnone
        exact hcore.arm_chats hqr hempty hnone
      · rename_i next hfind
        have hmem := List.mem_of_find?_eq_some hfind
        rw [← hqr] at hfind hqp
        have hok := hcore.slotOk hqp hall hfind
        have hserved := hcore.serve (not_lt.mp htokens) hmem hok
        rw [hqr] at hserved hqp
        have hshort : (q.serve now (wanted n) next).waiting.length + 1 = q.waiting.length := serve_length hmem
        have hend := ih _ hserved hqr hqp (by omega)
        exact ⟨hend.core, hend.refilledAt, hend.closed, hend.armed⟩

/-- **A pump** of an open pacer. -/
theorem pump_spec (wanted : ℕ → ℕ → Bool) (h : PacerCore o p) (hopen : p.closed = false)
    (hnow : p.refilledAt ≤ now) : PumpEnd o p now (p.pump o now wanted) := by
  have hcore : PacerCore o { p with timer := none } :=
    h.of_same rfl rfl rfl rfl rfl (h.pace.of_same rfl rfl rfl rfl)
  rw [EditPacer.pump, if_neg (by rw [hopen]; exact Bool.false_ne_true)]
  show PumpEnd o p now (if now < p.paused then _ else _)
  split_ifs with hpaused
  · have hcut := hcore.pace.cut hnow
    have hmax : max p.refilledAt now = now := max_eq_right hnow
    have hkept : PacerCore o { p with timer := none, refilledAt := max p.refilledAt now } :=
      hcore.of_same rfl rfl rfl rfl rfl hcut
    have hend := hkept.arm hmax (p.paused - now) (by linarith) (fun moment _ hservable => ?_)
    · exact ⟨hend.core, hend.refilledAt, hend.closed, hend.armed⟩
    · have := hservable.1
      show now + (p.paused - now) ≤ moment
      linarith
  · have hrefill := hcore.pace.refill hnow
    have hpruned := hrefill.prune
    have hkept : PacerCore o ((({ p with timer := none } : EditPacer).refill o now).prune o now) :=
      hcore.of_same rfl rfl rfl rfl rfl hpruned
    have hend := rounds_spec wanted (p.waiting.length + 1) _ hkept rfl (not_lt.mp hpaused)
      (Nat.lt_succ_self _)
    exact ⟨hend.core, hend.refilledAt, hend.closed, hend.armed⟩

end Pump

/-! ## The calls -/

section Calls

variable {o : EditPacerOptions} {p : EditPacer} {now : ℚ}

/-- The pacer with a new waiter in its queue. -/
def EditPacer.pushed (p : EditPacer) (chatId : ℤ) : EditPriority → EditPacer
  | .signal => { p with
      taken := p.taken + 1
      log := p.log ++ [PacerEntry.take ⟨p.taken, chatId⟩ .signal]
      signal := p.signal ++ [⟨p.taken, chatId⟩] }
  | .housekeeping => { p with
      taken := p.taken + 1
      log := p.log ++ [PacerEntry.take ⟨p.taken, chatId⟩ .housekeeping]
      housekeeping := p.housekeeping ++ [⟨p.taken, chatId⟩] }

theorem take_open (hopen : p.closed = false) (chatId : ℤ) (priority : EditPriority) (wanted : ℕ → ℕ → Bool) :
    p.take o chatId priority now wanted = (p.pushed chatId priority).pump o now wanted := by
  cases priority
  · show (if p.closed = true then _ else _) = (p.pushed chatId .signal).pump o now wanted
    rw [if_neg (by rw [hopen]; exact Bool.false_ne_true)]
    rfl
  · show (if p.closed = true then _ else _) = (p.pushed chatId .housekeeping).pump o now wanted
    rw [if_neg (by rw [hopen]; exact Bool.false_ne_true)]
    rfl

/-- A new take waits behind those of its priority. -/
theorem waitingOf_take {log : List PacerEntry} {waiter : EditWaiter} (hfresh : waiter.id ∉ answeredOf log)
    (priority priority' : EditPriority) : waitingOf (log ++ [.take waiter priority]) priority' =
      waitingOf log priority' ++ if priority = priority' then [waiter] else [] := by
  have htakes : takesOf (log ++ [.take waiter priority]) = takesOf log ++ [(waiter, priority)] := takesOf_append
  have hanswered : answeredOf (log ++ [.take waiter priority]) = answeredOf log := by
    rw [answeredOf_append]
    exact List.append_nil _
  unfold waitingOf
  rw [htakes, hanswered, List.filter_append, List.map_append]
  congr 1
  by_cases hpriority : priority = priority'
  · have hkept : decide (priority = priority' ∧ waiter.id ∉ answeredOf log) = true := decide_eq_true ⟨hpriority, hfresh⟩
    rw [if_pos hpriority, List.filter_singleton, hkept]
    rfl
  · have hleft : decide (priority = priority' ∧ waiter.id ∉ answeredOf log) = false :=
      decide_eq_false (fun h => hpriority h.1)
    rw [if_neg hpriority, List.filter_singleton, hleft]
    rfl

theorem PacerCore.fresh (h : PacerCore o p) : p.taken ∉ answeredOf p.log :=
  fun hmem => lt_irrefl _ (h.queues.known _ hmem)

/-- **A new waiter**. -/
theorem PacerCore.push (h : PacerCore o p) (chatId : ℤ) (priority : EditPriority) :
    PacerCore o (p.pushed chatId priority) := by
  have hfresh : (⟨p.taken, chatId⟩ : EditWaiter).id ∉ answeredOf p.log := h.fresh
  have hlog : (p.pushed chatId priority).log = p.log ++ [PacerEntry.take ⟨p.taken, chatId⟩ priority] := by
    cases priority <;> rfl
  have htaken : (p.pushed chatId priority).taken = p.taken + 1 := by cases priority <;> rfl
  have hanswered : answeredOf (p.pushed chatId priority).log = answeredOf p.log := by
    rw [hlog, answeredOf_append]
    exact List.append_nil _
  refine ⟨?_, ⟨?_, ?_, ?_, ?_, ?_⟩, ?_, ?_⟩
  · refine h.pace.of_same ?_ (by cases priority <;> rfl) (by cases priority <;> rfl) (by cases priority <;> rfl)
    rw [hlog, slotsOf_append]
    exact List.append_nil _
  · rw [hlog, waitingOf_take hfresh, ← h.queues.signal]
    cases priority
    · rfl
    · exact (List.append_nil _).symm
  · rw [hlog, waitingOf_take hfresh, ← h.queues.housekeeping]
    cases priority
    · exact (List.append_nil _).symm
    · rfl
  · rw [hlog, htaken, takesOf_append, List.map_append, h.queues.ids, List.range_succ]
    rfl
  · rw [hanswered]
    exact h.queues.once
  · rw [hanswered, htaken]
    exact fun id hid => Nat.lt_succ_of_lt (h.queues.known id hid)
  · rw [hlog]
    refine h.log.snoc ?_
    have hlen := congrArg List.length h.queues.ids
    rw [List.length_map, List.length_range] at hlen
    exact hlen.symm
  · have hpaused : (p.pushed chatId priority).paused = p.paused := by cases priority <;> rfl
    rw [hlog, hpaused, pausesOf_append]
    intro untilMs hu
    rcases List.mem_append.mp hu with hold | hnew
    · exact h.pauses untilMs hold
    · exact absurd hnew List.not_mem_nil

/-- A pause noted, with its end. -/
theorem PacerCore.pause (h : PacerCore o p) (untilMs : ℚ) :
    PacerCore o { p with log := p.log ++ [PacerEntry.pause untilMs], paused := max p.paused untilMs } := by
  have hes : takesOf [PacerEntry.pause untilMs] = [] := rfl
  refine ⟨h.pace.of_same ?_ rfl rfl rfl, ?_, h.log.snoc trivial, ?_⟩
  · show slotsOf (p.log ++ [PacerEntry.pause untilMs]) = slotsOf p.log
    rw [slotsOf_append]
    exact List.append_nil _
  · have hall : ∀ queue : List EditWaiter,
        queue = queue.filter (fun waiter => waiter.id ∉ answeredOf [PacerEntry.pause untilMs]) :=
      fun queue => (List.filter_eq_self.mpr (fun _ _ => decide_eq_true List.not_mem_nil)).symm
    exact @Queues.answer _ _ [.pause untilMs] h.queues hes List.nodup_nil
      (fun _ hid => absurd hid List.not_mem_nil) rfl rfl (hall _) (hall _)
  · show ∀ u ∈ pausesOf (p.log ++ [PacerEntry.pause untilMs]), u ≤ max p.paused untilMs
    rw [pausesOf_append]
    intro u hu
    rcases List.mem_append.mp hu with hold | hnew
    · exact (h.pauses u hold).trans (le_max_left _ _)
    · rw [List.mem_singleton.mp hnew]
      exact le_max_right _ _

/-- All who wait are answered. -/
theorem PacerCore.close (h : PacerCore o p) (closed : Bool) (timer : Option ℚ) :
    PacerCore o { p with
      closed := closed, timer := timer, log := p.log ++ p.waiting.map .closed, signal := [], housekeeping := [] } := by
  have hnone : ∀ queue : List EditWaiter, (∀ waiter ∈ queue, waiter ∈ p.waiting) →
      [] = queue.filter (fun waiter => waiter.id ∉ p.waiting.map EditWaiter.id) := by
    intro queue hqueue
    refine (List.filter_eq_nil_iff.mpr (fun waiter hw hnot => ?_)).symm
    exact of_decide_eq_true hnot (List.mem_map_of_mem (hqueue waiter hw))
  exact h.answer (fun waiter => ⟨rfl, rfl, rfl⟩) (answeredOf_closed p.waiting) (List.Sublist.refl _)
    (fun waiter hw before htake => htake) rfl rfl rfl (hnone _ (fun waiter hw => List.mem_append_left _ hw))
    (hnone _ (fun waiter hw => List.mem_append_right _ hw)) rfl rfl rfl

/-- A take of a closed pacer is answered at once. -/
theorem PacerCore.take_closed (h : PacerCore o p) (hclosed : p.closed = true) (hempty : p.waiting = [])
    (chatId : ℤ) (priority : EditPriority) (wanted : ℕ → ℕ → Bool) :
    PacerCore o (p.take o chatId priority now wanted) ∧ (p.take o chatId priority now wanted).waiting = [] ∧
      (p.take o chatId priority now wanted).closed = true ∧
      (p.take o chatId priority now wanted).refilledAt = p.refilledAt := by
  obtain ⟨hsignal, hhousekeeping⟩ := List.append_eq_nil_iff.mp hempty
  have htake : p.take o chatId priority now wanted = { p with
      taken := p.taken + 1
      log := p.log ++ [PacerEntry.take ⟨p.taken, chatId⟩ priority] ++ [PacerEntry.closed ⟨p.taken, chatId⟩] } := by
    unfold EditPacer.take
    simp only [hclosed, if_true]
  rw [htake]
  refine ⟨?_, hempty, hclosed, rfl⟩
  have hpushed := (h.push chatId priority).close p.closed p.timer
  have hwaiting : (p.pushed chatId priority).waiting = [⟨p.taken, chatId⟩] := by
    cases priority
    · show (p.signal ++ [_]) ++ p.housekeeping = _
      rw [hsignal, hhousekeeping]
      rfl
    · show p.signal ++ (p.housekeeping ++ [_]) = _
      rw [hsignal, hhousekeeping]
      rfl
  have hlog : (p.pushed chatId priority).log = p.log ++ [PacerEntry.take ⟨p.taken, chatId⟩ priority] := by
    cases priority <;> rfl
  rw [hwaiting, hlog] at hpushed
  refine hpushed.of_same rfl (by cases priority <;> rfl) hsignal hhousekeeping (by cases priority <;> rfl) ?_
  exact hpushed.pace.of_same rfl (by cases priority <;> rfl) (by cases priority <;> rfl) (by cases priority <;> rfl)

end Calls

/-! ## Runs -/

/-- What every call keeps. -/
structure PacerInv (o : EditPacerOptions) (w : PacerRun) : Prop where
  core : PacerCore o w.pacer
  past : w.pacer.refilledAt ≤ w.clock
  closed : w.pacer.closed = true → w.pacer.waiting = []
  armed : w.pacer.closed = false → w.pacer.waiting = [] ∨ Armed o w.pacer w.clock

section Run

variable {o : EditPacerOptions} {p : EditPacer} {w : PacerRun} {now : ℚ}

theorem Armed.later (h : Armed o p w.clock) (hnow : w.clock ≤ now) : Armed o p now := by
  obtain ⟨due, htimer, hdue⟩ := h
  exact ⟨due, htimer, fun moment hmoment => hdue moment (hnow.trans hmoment)⟩

/-- A pump, and the clock of its call. -/
theorem PacerCore.pumped (h : PacerCore o p) (hpast : p.refilledAt ≤ now)
    (hempty : p.closed = true → p.waiting = []) (wanted : ℕ → ℕ → Bool) :
    PacerInv o { pacer := p.pump o now wanted, clock := now } := by
  cases hclosed : p.closed with
  | true =>
    have hsame : p.pump o now wanted = p := by rw [EditPacer.pump, if_pos hclosed]
    rw [hsame]
    exact ⟨h, hpast, hempty, fun _ => .inl (hempty hclosed)⟩
  | false =>
    have hend := pump_spec wanted h hclosed hpast
    have hopen : (p.pump o now wanted).closed = false := hend.closed.trans hclosed
    refine ⟨hend.core, hend.refilledAt.le, fun hnot => ?_, fun _ => hend.armed⟩
    exact absurd (hnot.symm.trans hopen) (by decide)

theorem PacerInv.start (o : EditPacerOptions) (now : ℚ) : PacerInv o (PacerRun.start o now) := by
  refine ⟨⟨⟨Bucket.full o.burst_nonneg o.rate_nonneg now, List.Pairwise.nil, ?_, ?_⟩, ⟨rfl, rfl, rfl, List.nodup_nil, ?_⟩,
    ?_, ?_⟩, le_refl _, fun _ => rfl, fun _ => .inl rfl⟩
  · exact fun s hs => absurd hs List.not_mem_nil
  · exact fun chatId editedAt hget => by cases hget
  · exact fun id hid => absurd hid List.not_mem_nil
  · intro before e after heq
    exact absurd heq.symm (by simp [PacerRun.start, createEditPacer])
  · exact fun untilMs hu => absurd hu List.not_mem_nil

/-- **One call** keeps the invariant. -/
theorem PacerInv.act (h : PacerInv o w) (call : PacerCall) (hok : PacerRun.Ok w call) :
    PacerInv o (PacerRun.act o w call) := by
  cases call with
  | take chatId priority now wanted =>
    have hnow : w.clock ≤ now := hok
    cases hclosed : w.pacer.closed with
    | true =>
      obtain ⟨hcore, hempty, hstill, hrefilled⟩ := h.core.take_closed hclosed (h.closed hclosed) chatId priority wanted
      refine ⟨hcore, ?_, fun _ => hempty, fun _ => .inl hempty⟩
      show (w.pacer.take o chatId priority now wanted).refilledAt ≤ now
      rw [hrefilled]
      exact h.past.trans hnow
    | false =>
      have hopen : (w.pacer.pushed chatId priority).closed = false := by cases priority <;> exact hclosed
      have hpast : (w.pacer.pushed chatId priority).refilledAt ≤ now := by
        cases priority <;> exact h.past.trans hnow
      show PacerInv o ⟨w.pacer.take o chatId priority now wanted, now⟩
      rw [take_open hclosed]
      exact (h.core.push chatId priority).pumped hpast (fun hnot => absurd (hnot.symm.trans hopen) (by decide)) wanted
  | pause untilMs now wanted =>
    have hnow : w.clock ≤ now := hok
    have hnoted := h.core.pause untilMs
    show PacerInv o ⟨if untilMs ≤ w.pacer.paused then _ else _, now⟩
    split_ifs with hover
    · rw [max_eq_left hover] at hnoted
      exact ⟨hnoted, h.past.trans hnow, h.closed, fun hopen => (h.armed hopen).imp_right (fun harmed =>
        harmed.later hnow)⟩
    · rw [max_eq_right (not_le.mp hover).le] at hnoted
      exact hnoted.pumped (h.past.trans hnow) h.closed wanted
  | fire now wanted =>
    have hnow : w.clock ≤ now := hok
    show PacerInv o ⟨w.pacer.fire o now wanted, now⟩
    rw [EditPacer.fire]
    cases htimer : w.pacer.timer with
    | none =>
      exact ⟨h.core, h.past.trans hnow, h.closed, fun hopen => (h.armed hopen).imp_right (fun harmed =>
        harmed.later hnow)⟩
    | some due =>
      have hcore : PacerCore o { w.pacer with timer := none } :=
        h.core.of_same rfl rfl rfl rfl rfl (h.core.pace.of_same rfl rfl rfl rfl)
      exact hcore.pumped (h.past.trans hnow) h.closed wanted
  | close =>
    show PacerInv o ⟨w.pacer.close, w.clock⟩
    rw [EditPacer.close]
    split_ifs with hclosed
    · exact h
    · exact ⟨h.core.close true none, h.past, fun _ => rfl, fun _ => .inl rfl⟩

/-- **The pacer's limits and its order**: of any run of calls and timer firings, the slots of any window, the
gaps of a chat, the pauses and who is served first; every take is answered once, a closed pacer's all; and
while a take waits for its answer a timer is armed, due less than a millisecond after the first moment a
waiter could be served. -/
theorem edit_pacer (o : EditPacerOptions) (now : ℚ) (calls : List PacerCall)
    (hcalls : RunOk (PacerRun.act o) PacerRun.Ok (PacerRun.start o now) calls) :
    let w := run (PacerRun.act o) (PacerRun.start o now) calls
    let log := w.pacer.log
    (∀ start length : ℚ, 0 ≤ length →
      ((slotsOf log).countP (fun s => decide (start ≤ s.2 ∧ s.2 ≤ start + length)) : ℚ) ≤
        o.burst + o.editsPerSecond * (length / 1000)) ∧
    (slotsOf log).Pairwise (fun s s' => s.1.chatId = s'.1.chatId → s.2 + o.chatGapMs ≤ s'.2) ∧
    PacerLogOk o log ∧
    (answeredOf log).Nodup ∧
    (w.pacer.closed = true → ∀ t ∈ takesOf log, t.1.id ∈ answeredOf log) ∧
    (w.pacer.closed = false → ∀ t ∈ takesOf log, t.1.id ∉ answeredOf log → Armed o w.pacer w.clock) := by
  intro w log
  have hinv : PacerInv o w := hcalls.induction (PacerInv.start o now) (fun w call hok h => h.act call hok)
  refine ⟨fun start length hlength => ?_, hinv.core.pace.gaps, hinv.core.log, hinv.core.queues.once, ?_, ?_⟩
  · have hwindow := hinv.core.pace.bucket.windows start (start + length) (by linarith)
    rw [List.countP_map, add_sub_cancel_left] at hwindow
    refine hwindow.trans (le_of_eq ?_)
    ring
  · intro hclosed t ht
    by_contra hfresh
    have hmem : t.1 ∈ w.pacer.waiting := hinv.core.queues.mem_waiting.mpr ⟨t.2, ht, hfresh⟩
    rw [hinv.closed hclosed] at hmem
    exact absurd hmem List.not_mem_nil
  · intro hopen t ht hfresh
    have hmem : t.1 ∈ w.pacer.waiting := hinv.core.queues.mem_waiting.mpr ⟨t.2, ht, hfresh⟩
    refine (hinv.armed hopen).resolve_left (fun hempty => ?_)
    rw [hempty] at hmem
    exact absurd hmem List.not_mem_nil

end Run

/-- Ten edits a second, two at once, one a second of a chat. -/
def pacerSample : EditPacerOptions where
  editsPerSecond := 10
  burst := 2
  chatGapMs := 1000
  editsPerSecond_pos := by norm_num
  burst_nonneg := by norm_num

/-- Two edits of one chat; the second waits for the gap and gets its slot from the timer. -/
def twoEdits : List PacerCall :=
  [.take 7 .housekeeping 0 (fun _ _ => true), .take 7 .signal 100 (fun _ _ => true),
    .fire 1000 (fun _ _ => true)]

theorem edit_pacer_two_edits :
    let w := run (PacerRun.act pacerSample) (PacerRun.start pacerSample 0) twoEdits
    slotsOf w.pacer.log = [(⟨0, 7⟩, 0), (⟨1, 7⟩, 1000)] ∧
      (slotsOf w.pacer.log).Pairwise (fun s s' => s.1.chatId = s'.1.chatId → s.2 + 1000 ≤ s'.2) := by
  have hcalls : RunOk (PacerRun.act pacerSample) PacerRun.Ok (PacerRun.start pacerSample 0) twoEdits := by
    refine ⟨?_, ?_, ?_, trivial⟩
    · show (0 : ℚ) ≤ 0
      norm_num
    · show (0 : ℚ) ≤ 100
      norm_num
    · show (100 : ℚ) ≤ 1000
      norm_num
  exact ⟨by decide +kernel, (edit_pacer pacerSample 0 twoEdits hcalls).2.1⟩

end Binarius
