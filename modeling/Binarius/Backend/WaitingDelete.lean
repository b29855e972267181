import Mathlib.Tactic
import Binarius.Lib.Runs
import Binarius.Backend.WaitingOwnership

/-!
# Backend.WaitingDelete — whose delete a waiting message meets, and what a new message finds in the chat

* `WaitingWorld.act_removing`: a delete begins after a re-read that found the row naming the message, and a
  clear after Telegram's answer for good, the last attempt, or a stopped session's unreachable user.
* `waiting_message_ownership`: **the waiting message over every interleaving.**
* `waiting_message_left_behind`: a dropped message is still in the chat under a new one, and a stop's
  hand-over falls between the re-read and the delete.
-/

namespace Binarius

open Lib

/-- The sender is at a delete of the waiting message. -/
def SenderPhase.removing : SenderPhase → Bool
  | .named _ _ _ | .deleting _ _ _ | .clear _ _ _ _ => true
  | _ => false

/-- The fate of a message whose delete Telegram answered for good. -/
def TelegramAnswer.fate : TelegramAnswer → Option WaitingFate
  | .ok _ => some .deleted
  | .gone => some .gone
  | .undeletable | .refused => some .undeletable
  | _ => none

namespace WaitingWorld

variable {w : WaitingWorld}

/-- How the sender comes to a delete, and from a delete to a clear. -/
inductive RemovalStep (w : WaitingWorld) (i : SenderInput) : SenderPhase → Prop
  | named {t : NoticeTurn} {id : MessageId} {why : RemovalFor} (hphase : w.phase = .remove t id why)
      (hrow : w.row.waitingMessageId = some id) : RemovalStep w i (.named t id why)
  | deleting {t : NoticeTurn} {id : MessageId} {why : RemovalFor} (hphase : w.phase = .named t id why) :
      RemovalStep w i (.deleting t id why)
  | answered {t : NoticeTurn} {id : MessageId} {why : RemovalFor} {fate : WaitingFate}
      (hphase : w.phase = .deleting t id why) (hanswer : i.answer.fate = some fate) :
      RemovalStep w i (.clear t id why fate)
  | givenUp {t : NoticeTurn} {id : MessageId} {why : RemovalFor} (hphase : w.phase = .deleting t id why)
      (hattempts : sessionNoticeMaxAttempts ≤ w.attempts (.delete id) + 1) :
      RemovalStep w i (.clear t id why .givenUp)
  | dropped {t t' : NoticeTurn} {id : MessageId} {why : RemovalFor}
      (hphase : w.phase = .remove t' id why ∧ t'.telegramBlocked = true ∨
        w.phase = .deleting t' id why ∧ i.answer = .forbidden)
      (hstopped : t.status = .stopped) : RemovalStep w i (.clear t id why .dropped)

theorem removed_calm (t : NoticeTurn) (removal : Removal) (why : RemovalFor) :
    (w.removed t removal why).phase.removing = false := by
  cases why with
  | newMessage target =>
    cases removal with
    | cleared =>
      show SenderPhase.removing (if _ then _ else _) = false
      split <;> rfl
    | _ => rfl
  | stale => cases removal <;> rfl
  | caption => cases removal <;> rfl

theorem sendFailed_calm {key : AttemptKey} {release afterForbidden next : SenderPhase} (answer : TelegramAnswer)
    (hrelease : release.removing = false) (hforbidden : afterForbidden.removing = false)
    (hnext : next.removing = false) :
    (w.sendFailed key release afterForbidden next answer).phase.removing = false := by
  unfold sendFailed
  split
  · exact hforbidden
  · exact hrelease
  · unfold mayRetry
    split
    · exact hnext
    · exact hrelease
  · exact hnext

theorem noticeFailed_calm (t : NoticeTurn) (target : NoticeTarget) (answer : TelegramAnswer) :
    (w.noticeFailed t target answer).phase.removing = false := by
  refine sendFailed_calm answer ?_ ?_ ?_ <;> rfl

theorem sendNew_calm (t : NoticeTurn) (target : NoticeTarget) : (w.sendNew t target).phase.removing = false := by
  unfold sendNew
  split <;> rfl

theorem claimed_calm (t : NoticeTurn) (target : NoticeTarget) : (w.claimed t target).phase.removing = false := by
  show SenderPhase.removing (if _ then _ else _) = false
  split <;> rfl

theorem serve_calm (t : NoticeTurn) (i : SenderInput) : (w.serve t i).phase.removing = false := by
  unfold serve
  split
  · split
    · unfold sendTrade
      split
      · exact claimed_calm _ _
      · rfl
    · rfl
  · split <;> rfl
  · split
    · split
      · rfl
      · unfold sendOpen
        split
        · exact claimed_calm _ _
        · rfl
    · rfl
  · split
    · rfl
    · split
      · unfold sendWaiting
        split <;> rfl
      · rfl

/-- Where a refused delete leaves the sender. -/
theorem unreachable_step {i : SenderInput} {w' : WaitingWorld} {t t' : NoticeTurn} {id : MessageId} {why : RemovalFor}
    (hfrom : w'.phase = .remove t' id why ∧ t'.telegramBlocked = true ∨
      w'.phase = .deleting t' id why ∧ i.answer = .forbidden)
    (h : (w.unreachable t id why).phase.removing = true) : RemovalStep w' i (w.unreachable t id why).phase := by
  unfold unreachable at h ⊢
  by_cases hstopped : t.status = .stopped
  · rw [if_pos hstopped]
    exact .dropped hfrom hstopped
  · rw [if_neg hstopped, removed_calm] at h
    exact nomatch h

theorem senderStep_removing {i : SenderInput} (h : (w.senderStep i).phase.removing = true)
    (hnew : (w.senderStep i).phase ≠ w.phase) : RemovalStep w i (w.senderStep i).phase := by
  have calm : ∀ {p : SenderPhase}, p.removing = false → p.removing = true → RemovalStep w i p := by
    intro p hfalse htrue
    rw [hfalse] at htrue
    exact nomatch htrue
  unfold senderStep at h hnew ⊢
  split
  all_goals rename_i hp
  all_goals simp only [hp] at h hnew
  · exact absurd rfl hnew
  · exact calm (serve_calm _ _) h
  · unfold deliver at h ⊢
    split
    · exact calm rfl (by simpa [*] using h)
    · exact calm (sendNew_calm _ _) (by simpa [*] using h)
  · refine calm ?_ h
    unfold edited
    split
    · rfl
    · rfl
    · exact sendNew_calm _ _
    · exact noticeFailed_calm _ _ _
  · rename_i t id why
    unfold removeWaiting at h ⊢
    by_cases hblocked : t.telegramBlocked = true
    · rw [if_pos hblocked] at h ⊢
      exact unreachable_step (.inl ⟨hp, hblocked⟩) h
    · rw [if_neg hblocked] at h ⊢
      by_cases hrow : w.row.waitingMessageId = some id
      · rw [if_pos hrow]
        exact .named hp hrow
      · rw [if_neg hrow] at h ⊢
        exact calm (removed_calm _ _ _) h
  · exact .deleting hp
  · rename_i t id why
    unfold deleteAnswered at h ⊢
    split
    all_goals rename_i hanswer
    all_goals simp only [hanswer] at h
    · exact .answered hp (by rw [hanswer]; rfl)
    · exact .answered hp (by rw [hanswer]; rfl)
    · exact .answered hp (by rw [hanswer]; rfl)
    · exact .answered hp (by rw [hanswer]; rfl)
    · exact unreachable_step (.inr ⟨hp, hanswer⟩) h
    · exact calm (removed_calm _ _ _) h
    all_goals
      by_cases hattempts : w.attempts (.delete id) + 1 ≥ sessionNoticeMaxAttempts
      · rw [if_pos hattempts]
        exact .givenUp hp hattempts
      · rw [if_neg hattempts] at h ⊢
        exact calm (removed_calm _ _ _) h
  · exact calm (removed_calm _ _ _) h
  · refine calm ?_ h
    unfold sent
    split
    · show SenderPhase.removing (if _ then _ else _) = false
      split <;> rfl
    · exact noticeFailed_calm _ _ _
  · refine calm ?_ h
    unfold recordCycle
    split <;> rfl
  · exact nomatch h
  · refine calm ?_ h
    unfold waitingSent
    split
    · show SenderPhase.removing (if _ then _ else _) = false
      split <;> rfl
    · refine sendFailed_calm _ ?_ ?_ ?_ <;> rfl
  · refine calm ?_ h
    unfold recordWaiting
    split <;> rfl
  · exact nomatch h
  · exact nomatch h
  · refine calm ?_ h
    show SenderPhase.removing (if _ then _ else _) = false
    split <;> rfl
  · refine calm ?_ h
    unfold captionEdited
    split <;> rfl

/-- A delete, or a clear, that an action begins is the sender's. -/
theorem act_removing {a : WaitingAct} (h : (w.act a).phase.removing = true) (hnew : (w.act a).phase ≠ w.phase) :
    ∃ i, a = .sender i ∧ RemovalStep w i (w.act a).phase := by
  cases a with
  | sender i => exact ⟨i, rfl, senderStep_removing h hnew⟩
  | list =>
    simp only [act] at h hnew
    split at h
    · exact absurd h Bool.false_ne_true
    · rename_i hidle
      rw [if_neg hidle] at hnew
      exact absurd rfl hnew
  | listCaptions =>
    simp only [act] at h hnew
    split at h
    · split at h
      · exact absurd h Bool.false_ne_true
      · simp [*] at hnew
    · simp [*] at hnew
  | leave restart => exact absurd h Bool.false_ne_true
  | stop reason waitingMessageId =>
    simp only [act] at hnew
    split at hnew <;> exact absurd rfl hnew
  | clearStopped id =>
    simp only [act] at hnew
    split at hnew
    · unfold clearRow at hnew
      split at hnew <;> exact absurd rfl hnew
    · exact absurd rfl hnew
  | recordStatus owned id => exact absurd rfl hnew
  | forgetStatus owned id => exact absurd rfl hnew
  | trades settled openTrade finished waitingForSignal => exact absurd rfl hnew
  | blocked value => exact absurd rfl hnew

end WaitingWorld

/-- **Waiting message ownership.**  After any interleaving, the row names the live waiting message and no
other is live; it leaves the row by a clear of its own id or by the stop route's hand-over, and stays known;
a delete begins only after a re-read that found the row naming the message, which is still named or was
handed over since; a clear is of a message deleted, gone, undeletable, given up after the last attempt, or
of a stopped session whose user is unreachable; and a new cycle or waiting message is sent while none is
live. -/
theorem waiting_message_ownership (startedAt : DbTime) (acts : List WaitingAct) :
    let w := run WaitingWorld.act (.start startedAt) acts
    (∀ m, w.fate m = some .live ↔ w.row.waitingMessageId = some m) ∧
    (∀ a m, w.row.waitingMessageId = some m → (w.act a).row.waitingMessageId ≠ some m →
      (w.act a).row.waitingMessageId = none ∧
        ∃ fate, WaitingWorld.LeftBy w m a fate ∧ (w.act a).fate m = some fate) ∧
    (∀ a m, w.fate m ≠ none → (w.act a).fate m ≠ none) ∧
    (∀ a t id why, (w.act a).phase = .named t id why → w.phase ≠ .named t id why →
      w.row.waitingMessageId = some id) ∧
    (∀ a t id why, (w.act a).phase = .deleting t id why → w.phase ≠ .deleting t id why →
      w.phase = .named t id why ∧
        (w.row.waitingMessageId = some id ∨ w.row.waitingMessageId = none ∧ w.fate id = some .handedOver)) ∧
    (∀ a t id why fate, (w.act a).phase = .clear t id why fate → w.phase ≠ .clear t id why fate →
      ∃ i, WaitingWorld.RemovalStep w i (.clear t id why fate)) ∧
    (∀ t target slot, w.phase = .send t target ∨ w.phase = .sendWaiting slot →
      w.row.waitingMessageId = none ∧ ∀ m, w.fate m ≠ some .live) := by
  intro w
  have hw : w.Inv := WaitingWorld.Inv.run startedAt acts
  refine ⟨hw.live, fun a m hsome hne => ?_, fun a m hm => ?_, fun a t id why h hnew => ?_,
    fun a t id why h hnew => ?_, fun a t id why fate h hnew => ?_, fun t target slot h => ?_⟩
  · have heffect := WaitingWorld.act_effect w a
    generalize w.act a = w' at hne heffect
    cases heffect with
    | quiet hrow _ => exact absurd (hrow.trans hsome) hne
    | recorded _ _ hnone => exact nomatch hnone.symm.trans hsome
    | left hm hrow hfate hby =>
      obtain rfl := Option.some.inj (hm.symm.trans hsome)
      exact ⟨hrow, _, hby, by rw [hfate, Function.update_self]⟩
  · have heffect := WaitingWorld.act_effect w a
    generalize w.act a = w' at heffect
    have hupdate : ∀ m' fate, Function.update w.fate m' (some fate) m ≠ none := by
      intro m' fate
      rcases eq_or_ne m m' with rfl | hne
      · simp
      · rwa [Function.update_of_ne hne]
    cases heffect with
    | quiet _ hfate => rwa [hfate]
    | recorded _ _ _ _ hfate => exact hfate ▸ hupdate _ _
    | left _ _ hfate _ => exact hfate ▸ hupdate _ _
  · obtain ⟨i, _, hstep⟩ := WaitingWorld.act_removing (by rw [h]; rfl) (by rw [h]; exact hnew.symm)
    rw [h] at hstep
    cases hstep with
    | named _ hrow => exact hrow
  · obtain ⟨i, _, hstep⟩ := WaitingWorld.act_removing (by rw [h]; rfl) (by rw [h]; exact hnew.symm)
    rw [h] at hstep
    cases hstep with
    | deleting hphase =>
      have hok := hw.phase
      rw [hphase] at hok
      exact ⟨hphase, hok.2⟩
  · obtain ⟨i, _, hstep⟩ := WaitingWorld.act_removing (by rw [h]; rfl) (by rw [h]; exact hnew.symm)
    rw [h] at hstep
    exact ⟨i, hstep⟩
  · have hnone : w.row.waitingMessageId = none := by
      have hok := hw.phase
      rcases h with h | h
      · rw [h] at hok
        exact hok
      · rw [h] at hok
        exact hok
    refine ⟨hnone, fun m hlive => ?_⟩
    exact nomatch hnone.symm.trans ((hw.live m).mp hlive)

/-! ## What the hand-over and the unreachable user leave behind -/

/-- A waiting message 5 sent under the status message 4. -/
def waitingSentActs : List WaitingAct :=
  let i : SenderInput := { now := 0, graceMs := 0, edits := false, fromTrade := 0, answer := .ok 5 }
  [.recordStatus true 4, .trades [] none false true, .list] ++ List.replicate 6 (.sender i)

/-- The session is stopped while its trade is open and its user is unreachable: 5 is dropped.  The user comes
back, and the trade's result goes out. -/
def waitingDroppedActs : List WaitingAct :=
  let i : SenderInput := { now := 0, graceMs := 0, edits := false, fromTrade := 0, answer := .unknown }
  waitingSentActs ++ [.trades [] (some 9) false false, .stop .userStopped none, .blocked true, .list] ++
    List.replicate 4 (.sender i) ++ [.leave false, .blocked false, .trades [9] none true false, .list] ++
    List.replicate 2 (.sender i)

/-- The session no longer waits: the sender re-reads 5, and the stop takes it over before the delete. -/
def waitingTakenActs : List WaitingAct :=
  let i : SenderInput := { now := 0, graceMs := 0, edits := false, fromTrade := 0, answer := .unknown }
  waitingSentActs ++ [.trades [] none false false, .list] ++ List.replicate 3 (.sender i) ++
    [.stop .userStopped (some 5)]

/-- A new message goes out over a waiting message that was neither deleted, found gone, declared undeletable
nor handed over; and a delete begins of a message the row no longer names. -/
theorem waiting_message_left_behind :
    (¬ ∀ (acts : List WaitingAct) (t : NoticeTurn) (target : NoticeTarget) (m : MessageId),
      (run WaitingWorld.act (.start 0) acts).phase = .send t target →
      (run WaitingWorld.act (.start 0) acts).fate m ≠ none →
      (run WaitingWorld.act (.start 0) acts).fate m ∈
        [some .deleted, some .gone, some .undeletable, some .handedOver]) ∧
    (¬ ∀ (acts : List WaitingAct) (a : WaitingAct) (t : NoticeTurn) (id : MessageId) (why : RemovalFor),
      (run WaitingWorld.act (.start 0) acts).phase = .named t id why →
      ((run WaitingWorld.act (.start 0) acts).act a).phase = .deleting t id why →
      (run WaitingWorld.act (.start 0) acts).row.waitingMessageId = some id) := by
  refine ⟨fun h => ?_, fun h => ?_⟩
  · have hdropped : (run WaitingWorld.act (.start 0) waitingDroppedActs).fate 5 = some .dropped := rfl
    have hfate := h waitingDroppedActs _ (.trade 0 9) 5 rfl (by rw [hdropped]; nofun)
    rw [hdropped] at hfate
    exact absurd hfate (by decide)
  · have hrow := h waitingTakenActs
      (.sender { now := 0, graceMs := 0, edits := false, fromTrade := 0, answer := .unknown }) _ 5 .stale rfl rfl
    exact nomatch hrow

end Binarius
