import Mathlib.Tactic
import Binarius.Lib.Runs
import Binarius.Backend.WaitingMessage

/-!
# Backend.WaitingOwnership — what the sender knows of the recorded waiting message at each phase

* `WaitingWorld.act_effect`: an action records a waiting message, or takes one out of the row, or neither.
* `WaitingWorld.Inv.act`: **the turn knows the recorded message**: a send finds none recorded, a delete is of
  the recorded message or of one handed over since.
-/

namespace Binarius

open Lib

/-- What is recorded, if anything, is what is known. -/
def Within (recorded known : Option MessageId) : Prop := ∀ m, recorded = some m → known = some m

theorem Within.refl (known : Option MessageId) : Within known known := fun _ h => h

theorem Within.nothing (known : Option MessageId) : Within none known := fun _ h => nomatch h

theorem Within.eq_none {recorded : Option MessageId} (h : Within recorded none) : recorded = none := by
  cases recorded with
  | none => rfl
  | some m => exact nomatch h m rfl

namespace WaitingWorld

/-! ## The invariant -/

/-- What a phase knows of the recorded message. -/
def PhaseOk (recorded : Option MessageId) (fate : MessageId → Option WaitingFate) : SenderPhase → Prop
  | .serving t | .deliver t _ | .edit t _ => Within recorded t.waitingMessageId
  | .remove t id _ => t.waitingMessageId = some id ∧ Within recorded (some id)
  | .named t id _ | .deleting t id _ =>
    t.waitingMessageId = some id ∧ (recorded = some id ∨ recorded = none ∧ fate id = some .handedOver)
  | .clear t id _ why => t.waitingMessageId = some id ∧ Within recorded (some id) ∧ why ≠ .live
  | .send _ _ | .record _ _ _ | .sendWaiting _ | .recordWaiting _ _ => recorded = none
  | .captionListed id | .captionEdit id => Within recorded (some id)
  | .idle | .release _ | .releaseWaiting _ | .unrecorded _ => True

/-- The live messages are the recorded one. -/
def Live (w : WaitingWorld) : Prop := ∀ m, w.fate m = some .live ↔ w.row.waitingMessageId = some m

structure Inv (w : WaitingWorld) : Prop where
  live : w.Live
  phase : PhaseOk w.row.waitingMessageId w.fate w.phase

variable {w : WaitingWorld}

theorem Inv.start (startedAt : DbTime) : (WaitingWorld.start startedAt).Inv where
  live := fun _ => ⟨nofun, nofun⟩
  phase := trivial

theorem Live.goto (hw : w.Live) {phase : SenderPhase} (h : PhaseOk w.row.waitingMessageId w.fate phase) :
    (w.goto phase).Inv := ⟨hw, h⟩

@[simp] theorem goto_row (phase : SenderPhase) : (w.goto phase).row = w.row := rfl

@[simp] theorem goto_fate (phase : SenderPhase) : (w.goto phase).fate = w.fate := rfl

@[simp] theorem goto_phase (phase : SenderPhase) : (w.goto phase).phase = phase := rfl

@[simp] theorem forget_row (key : AttemptKey) : (w.forget key).row = w.row := rfl

@[simp] theorem forget_fate (key : AttemptKey) : (w.forget key).fate = w.fate := rfl

theorem Live.forget (hw : w.Live) (key : AttemptKey) : (w.forget key).Live := hw

@[simp] theorem next_waitingMessageId (t : NoticeTurn) (target : NoticeTarget) :
    (t.next target).waitingMessageId = t.waitingMessageId := by
  cases target <;> rfl

/-! ## What happens to the recorded message -/

/-- The statements that take a message out of the row. -/
inductive LeftBy (w : WaitingWorld) (m : MessageId) : WaitingAct → WaitingFate → Prop
  | clear {i : SenderInput} {t : NoticeTurn} {why : RemovalFor} {fate : WaitingFate}
      (hphase : w.phase = .clear t m why fate) : LeftBy w m (.sender i) fate
  | stop {reason : TradingSessionStopReason} (hactive : w.facts.status = .active) :
      LeftBy w m (.stop reason (some m)) .handedOver
  | clearStopped (hstopped : w.facts.status = .stopped) : LeftBy w m (.clearStopped m) .handedOver

/-- What an action does to the recorded message: nothing, or it records one, or the one leaves the row. -/
inductive WaitingEffect (w : WaitingWorld) (a : WaitingAct) (w' : WaitingWorld) : Prop
  | quiet (hrow : w'.row.waitingMessageId = w.row.waitingMessageId) (hfate : w'.fate = w.fate)
  | recorded {i : SenderInput} {slot m : MessageId} (ha : a = .sender i) (hphase : w.phase = .recordWaiting slot m)
      (hnone : w.row.waitingMessageId = none) (hrow : w'.row.waitingMessageId = some m)
      (hfate : w'.fate = Function.update w.fate m (some .live)) (hidle : w'.phase = .idle)
  | left {m : MessageId} {fate : WaitingFate} (hsome : w.row.waitingMessageId = some m)
      (hrow : w'.row.waitingMessageId = none) (hfate : w'.fate = Function.update w.fate m (some fate))
      (hby : LeftBy w m a fate)

/-- Neither the recorded message nor a fate changes. -/
structure Kept (w w' : WaitingWorld) : Prop where
  row : w'.row.waitingMessageId = w.row.waitingMessageId
  fate : w'.fate = w.fate

theorem Kept.refl (w : WaitingWorld) : Kept w w := ⟨rfl, rfl⟩

theorem Kept.trans {w₁ w₂ w₃ : WaitingWorld} (h : Kept w₁ w₂) (h' : Kept w₂ w₃) : Kept w₁ w₃ :=
  ⟨h'.row.trans h.row, h'.fate.trans h.fate⟩

theorem Kept.effect {a : WaitingAct} {w' : WaitingWorld} (h : Kept w w') : WaitingEffect w a w' :=
  .quiet h.row h.fate

theorem Kept.live {w' : WaitingWorld} (h : Kept w w') (hw : w.Live) : w'.Live := by
  intro m
  rw [h.fate, h.row]
  exact hw m

theorem kept_goto (phase : SenderPhase) : Kept w (w.goto phase) := ⟨rfl, rfl⟩

theorem kept_forget (key : AttemptKey) : Kept w (w.forget key) := ⟨rfl, rfl⟩

theorem kept_attempts (attempts : AttemptKey → ℕ) : Kept w { w with attempts := attempts } := ⟨rfl, rfl⟩

theorem kept_blocked (value : Bool) : Kept w { w with telegramBlocked := value } := ⟨rfl, rfl⟩

/-- A statement that leaves the waiting message's column. -/
theorem kept_write {row : Option SessionNotices}
    (h : ∀ row', row = some row' → row'.waitingMessageId = w.row.waitingMessageId) : Kept w (w.write row) := by
  cases row with
  | none => exact .refl w
  | some row' => exact ⟨h row' rfl, rfl⟩

theorem kept_mayRetry (key : AttemptKey) (again dropped : SenderPhase) : Kept w (w.mayRetry key again dropped) := by
  unfold mayRetry
  split
  · exact ⟨rfl, rfl⟩
  · exact ⟨rfl, rfl⟩

theorem kept_sendFailed (key : AttemptKey) (release afterForbidden next : SenderPhase) (answer : TelegramAnswer) :
    Kept w (w.sendFailed key release afterForbidden next answer) := by
  unfold sendFailed
  split
  · exact ⟨rfl, rfl⟩
  · exact kept_goto _
  · exact kept_mayRetry key release next
  · exact kept_goto _

theorem Kept.removed {w' : WaitingWorld} (h : Kept w w') (t : NoticeTurn) (removal : Removal) (why : RemovalFor) :
    Kept w (w'.removed t removal why) := by
  cases why <;> cases removal <;> exact ⟨h.row, h.fate⟩

theorem kept_unreachable (t : NoticeTurn) (m : MessageId) (why : RemovalFor) :
    Kept w (w.unreachable t m why) := by
  unfold unreachable
  split
  · exact kept_goto _
  · exact (Kept.refl w).removed _ _ _

theorem kept_removeWaiting (t : NoticeTurn) (m : MessageId) (why : RemovalFor) :
    Kept w (w.removeWaiting t m why) := by
  unfold removeWaiting
  split
  · exact kept_unreachable _ _ _
  · split
    · exact kept_goto _
    · exact (kept_forget (.delete m)).removed _ _ _

theorem kept_deleteAnswered (t : NoticeTurn) (m : MessageId) (why : RemovalFor) (answer : TelegramAnswer) :
    Kept w (w.deleteAnswered t m why answer) := by
  unfold deleteAnswered
  split
  · exact kept_goto _
  · exact kept_goto _
  · exact kept_goto _
  · exact kept_goto _
  · exact (kept_blocked true).trans (kept_unreachable _ _ _)
  · exact (Kept.refl w).removed _ _ _
  all_goals
    split
    · exact ⟨rfl, rfl⟩
    · exact (kept_attempts _).removed _ _ _

theorem kept_sendNew (t : NoticeTurn) (target : NoticeTarget) : Kept w (w.sendNew t target) := by
  unfold sendNew
  split <;> exact kept_goto _

theorem kept_edited (t : NoticeTurn) (target : NoticeTarget) (answer : TelegramAnswer) :
    Kept w (w.edited t target answer) := by
  unfold edited
  split
  · exact ⟨rfl, rfl⟩
  · exact ⟨rfl, rfl⟩
  · exact kept_sendNew t target
  · exact kept_sendFailed _ _ _ _ _

theorem kept_sent (t : NoticeTurn) (target : NoticeTarget) (answer : TelegramAnswer) :
    Kept w (w.sent t target answer) := by
  unfold sent
  split
  · exact ⟨rfl, rfl⟩
  · exact kept_sendFailed _ _ _ _ _

theorem kept_recordCycle (t : NoticeTurn) (target : NoticeTarget) (m : MessageId) (fromTrade : ℕ) :
    Kept w (w.recordCycle t target m fromTrade) := by
  unfold recordCycle
  split
  · rename_i row hrow
    obtain ⟨_, rfl⟩ := NoticeWorld.recordRow_some hrow
    exact ⟨rfl, rfl⟩
  · exact kept_goto _

theorem kept_serve (t : NoticeTurn) (i : SenderInput) : Kept w (w.serve t i) := by
  unfold serve
  split
  · split
    · unfold sendTrade
      split
      · rename_i row id hrow hid
        obtain ⟨_, _, _, _, rfl⟩ := SessionNotices.claimSessionTradeNotice_some hrow
        exact ⟨rfl, rfl⟩
      · exact kept_goto _
    · exact kept_goto _
  · split <;> exact kept_goto _
  · split
    · split
      · exact kept_goto _
      · unfold sendOpen
        split
        · rename_i row hrow
          obtain ⟨_, _, _, _, _, _, rfl⟩ := SessionNotices.claimSessionOpenNotice_some hrow
          exact ⟨rfl, rfl⟩
        · exact kept_goto _
    · exact kept_goto _
  · split
    · refine Kept.trans (kept_write fun row' hrow => ?_) (kept_goto _)
      obtain ⟨_, _, _, _, rfl⟩ := SessionNotices.claimSessionFinalNotice_some hrow
      rfl
    · split
      · unfold sendWaiting
        split
        · rename_i row hrow
          obtain ⟨_, _, rfl⟩ := SessionNotices.claimSessionWaiting_some hrow
          exact ⟨rfl, rfl⟩
        · exact kept_goto _
      · exact kept_goto _

theorem kept_release (target : NoticeTarget) : Kept w (w.write (NoticeWorld.releaseRow w.row target)) := by
  refine kept_write fun row' hrow => ?_
  cases target with
  | trade k id =>
    obtain ⟨_, _, rfl⟩ := SessionNotices.releaseSessionTradeNotice_some hrow
    rfl
  | openBlock id k =>
    obtain ⟨_, rfl⟩ := SessionNotices.releaseSessionOpenNotice_some hrow
    rfl

/-- The clear's statement found the message and dropped it, or found another value and wrote nothing. -/
theorem clearRow_effect (m : MessageId) (fate : WaitingFate) {a : WaitingAct} (hby : LeftBy w m a fate) :
    WaitingEffect w a (w.clearRow m fate) := by
  unfold clearRow
  split
  · rename_i row hrow
    obtain ⟨hsome, rfl⟩ := SessionNotices.clearSessionWaitingMessage_some hrow
    exact .left hsome rfl rfl hby
  · exact (Kept.refl w).effect

theorem WaitingEffect.kept {a : WaitingAct} {w₁ w₂ : WaitingWorld} (h : WaitingEffect w a w₁) (hk : Kept w₁ w₂)
    (hphase : ∀ slot m, w.phase ≠ .recordWaiting slot m) : WaitingEffect w a w₂ := by
  cases h with
  | quiet hrow hfate => exact .quiet (hk.row.trans hrow) (hk.fate.trans hfate)
  | recorded ha hp => exact absurd hp (hphase _ _)
  | left hsome hrow hfate hby => exact .left hsome (hk.row.trans hrow) (hk.fate.trans hfate) hby

theorem senderStep_effect (i : SenderInput) : WaitingEffect w (.sender i) (w.senderStep i) := by
  unfold senderStep
  split
  · exact (Kept.refl w).effect
  · exact (kept_serve _ _).effect
  · rename_i t target _
    unfold deliver
    split
    · exact (kept_goto _).effect
    · exact (kept_sendNew t target).effect
  · exact (kept_edited _ _ _).effect
  · exact (kept_removeWaiting _ _ _).effect
  · exact (kept_goto _).effect
  · exact (kept_deleteAnswered _ _ _ _).effect
  · rename_i t m why fate hphase
    refine (clearRow_effect m fate (.clear hphase)).kept ?_ (by simp [hphase])
    exact (kept_forget (.delete m)).removed _ _ _
  · exact (kept_sent _ _ _).effect
  · exact (kept_recordCycle _ _ _ _).effect
  · exact ((kept_release _).trans (kept_goto _)).effect
  · rename_i slot _
    unfold waitingSent
    split
    · exact Kept.effect ⟨rfl, rfl⟩
    · exact (kept_sendFailed _ _ _ _ _).effect
  · rename_i slot m hphase
    unfold recordWaiting
    split
    · rename_i row hrow
      obtain ⟨_, hnone, _, rfl⟩ := SessionNotices.recordSessionWaitingMessage_some hrow
      exact .recorded rfl hphase hnone rfl rfl rfl
    · exact (kept_goto _).effect
  · rename_i slot _
    refine ((kept_write fun row' hrow => ?_).trans (kept_goto _)).effect
    obtain ⟨_, _, rfl⟩ := SessionNotices.releaseSessionWaiting_some hrow
    rfl
  · exact (kept_goto _).effect
  · exact (kept_goto _).effect
  · rename_i m _
    unfold captionEdited
    split <;> exact Kept.effect ⟨rfl, rfl⟩

theorem act_effect (w : WaitingWorld) (a : WaitingAct) : WaitingEffect w a (w.act a) := by
  cases a with
  | sender i => exact senderStep_effect i
  | list =>
    simp only [act]
    split
    · exact (kept_goto _).effect
    · exact (Kept.refl w).effect
  | listCaptions =>
    simp only [act]
    split
    · split
      · exact (kept_goto _).effect
      · exact (Kept.refl w).effect
    · exact (Kept.refl w).effect
  | leave restart => exact Kept.effect ⟨rfl, rfl⟩
  | stop reason waitingMessageId =>
    simp only [act]
    split
    · rename_i hactive
      cases waitingMessageId with
      | none => exact Kept.effect ⟨by simp [SessionNotices.stopped], rfl⟩
      | some m =>
        by_cases hm : w.row.waitingMessageId = some m
        · refine .left hm ?_ (if_pos hm) (.stop hactive)
          simp [SessionNotices.stopped, hm]
        · refine Kept.effect ⟨?_, if_neg hm⟩
          simp [SessionNotices.stopped, hm]
    · exact (Kept.refl w).effect
  | clearStopped m =>
    simp only [act]
    split
    · rename_i hstopped
      exact clearRow_effect m .handedOver (.clearStopped hstopped)
    · exact (Kept.refl w).effect
  | recordStatus owned m =>
    refine (kept_write fun row' hrow => ?_).effect
    obtain rfl := SessionNotices.recordSessionStatusMessage_some hrow
    rfl
  | forgetStatus owned m =>
    refine (kept_write fun row' hrow => ?_).effect
    obtain rfl := SessionNotices.forgetSessionStatusMessage_some hrow
    rfl
  | trades settled openTrade finished waitingForSignal => exact Kept.effect ⟨rfl, rfl⟩
  | blocked value => exact Kept.effect ⟨rfl, rfl⟩

/-! ## What a phase knows -/

theorem removed_ok {t : NoticeTurn} {removal : Removal} {why : RemovalFor}
    (hknown : Within w.row.waitingMessageId t.waitingMessageId)
    (hcleared : removal = .cleared → w.row.waitingMessageId = none) :
    PhaseOk w.row.waitingMessageId w.fate (w.removed t removal why).phase := by
  have hnext : ∀ target, Within w.row.waitingMessageId (t.next target).waitingMessageId := by
    intro target
    rw [next_waitingMessageId]
    exact hknown
  cases why with
  | newMessage target =>
    cases removal with
    | blocked => exact hnext target
    | cleared =>
      show PhaseOk _ _ (if t.telegramBlocked then .serving (t.next target) else .send t target)
      split
      · exact hnext target
      · exact hcleared rfl
    | kept => trivial
    | wait => trivial
  | stale =>
    cases removal with
    | blocked => exact hknown
    | cleared => exact hknown
    | kept => trivial
    | wait => trivial
  | caption => cases removal <;> trivial

theorem unreachable_ok {t : NoticeTurn} {id : MessageId} {why : RemovalFor} (ht : t.waitingMessageId = some id)
    (hknown : Within w.row.waitingMessageId (some id)) :
    PhaseOk w.row.waitingMessageId w.fate (w.unreachable t id why).phase := by
  unfold unreachable
  split
  · exact ⟨ht, hknown, nofun⟩
  · exact removed_ok (ht ▸ hknown) nofun

theorem removeWaiting_ok {t : NoticeTurn} {id : MessageId} {why : RemovalFor} (ht : t.waitingMessageId = some id)
    (hknown : Within w.row.waitingMessageId (some id)) :
    PhaseOk w.row.waitingMessageId w.fate (w.removeWaiting t id why).phase := by
  unfold removeWaiting
  split
  · exact unreachable_ok ht hknown
  · split
    · rename_i hrow
      exact ⟨ht, .inl hrow⟩
    · rename_i hrow
      -- the row names no other message either: it can only have lost the one the turn knows
      have hnone : w.row.waitingMessageId = none := by
        cases hw : w.row.waitingMessageId with
        | none => rfl
        | some m => exact absurd (hw.trans (hknown m hw).symm) hrow
      have hforget : (w.forget (.delete id)).row.waitingMessageId = none := hnone
      exact removed_ok (by rw [hforget]; exact Within.nothing _) (fun _ => hforget)

theorem deleteAnswered_ok {t : NoticeTurn} {id : MessageId} {why : RemovalFor} {answer : TelegramAnswer}
    (ht : t.waitingMessageId = some id) (hknown : Within w.row.waitingMessageId (some id)) :
    PhaseOk w.row.waitingMessageId w.fate (w.deleteAnswered t id why answer).phase := by
  unfold deleteAnswered
  split
  · exact ⟨ht, hknown, nofun⟩
  · exact ⟨ht, hknown, nofun⟩
  · exact ⟨ht, hknown, nofun⟩
  · exact ⟨ht, hknown, nofun⟩
  · have hok : ∀ (w' : WaitingWorld) (t' : NoticeTurn), t'.waitingMessageId = some id →
        Within w'.row.waitingMessageId (some id) →
        PhaseOk w'.row.waitingMessageId w'.fate (w'.unreachable t' id why).phase :=
      fun w' t' => unreachable_ok
    exact hok { w with telegramBlocked := true } { t with telegramBlocked := true } ht hknown
  · exact removed_ok (ht ▸ hknown) nofun
  all_goals
    split
    · exact ⟨ht, hknown, nofun⟩
    · exact removed_ok (ht ▸ hknown) nofun

theorem clearRow_none {id : MessageId} {fate : WaitingFate} (hknown : Within w.row.waitingMessageId (some id)) :
    (w.clearRow id fate).row.waitingMessageId = none := by
  unfold clearRow
  split
  · rename_i row hrow
    obtain ⟨_, rfl⟩ := SessionNotices.clearSessionWaitingMessage_some hrow
    rfl
  · rename_i hrow
    cases hw : w.row.waitingMessageId with
    | none => rfl
    | some m =>
      have hid : w.row.waitingMessageId = some id := hw.trans (hknown m hw).symm
      rw [SessionNotices.clearSessionWaitingMessage, if_pos hid] at hrow
      exact nomatch hrow

theorem clear_ok {t : NoticeTurn} {id : MessageId} {why : RemovalFor} {fate : WaitingFate}
    (hknown : Within w.row.waitingMessageId (some id)) :
    PhaseOk (w.clear t id why fate).row.waitingMessageId (w.clear t id why fate).fate
      (w.clear t id why fate).phase := by
  have hforget : Kept (w.clearRow id fate) ((w.clearRow id fate).forget (.delete id)) := kept_forget _
  have hkept := hforget.removed { t with waitingMessageId := none, waitingDue := t.waitingForSignal } .cleared why
  have hnone : ((w.clearRow id fate).forget (.delete id)).row.waitingMessageId = none := clearRow_none hknown
  unfold clear
  rw [hkept.row, hkept.fate]
  exact removed_ok (by rw [hnone]; exact Within.nothing _) (fun _ => hnone)

theorem sendNew_ok {t : NoticeTurn} {target : NoticeTarget}
    (hknown : Within w.row.waitingMessageId t.waitingMessageId) :
    PhaseOk w.row.waitingMessageId w.fate (w.sendNew t target).phase := by
  unfold sendNew
  split
  · rename_i id hid
    exact ⟨hid, hid ▸ hknown⟩
  · rename_i hnone
    rw [hnone] at hknown
    exact hknown.eq_none

theorem sendFailed_ok {key : AttemptKey} {release afterForbidden next : SenderPhase} {answer : TelegramAnswer}
    (hrelease : PhaseOk w.row.waitingMessageId w.fate release)
    (hforbidden : PhaseOk w.row.waitingMessageId w.fate afterForbidden)
    (hnext : PhaseOk w.row.waitingMessageId w.fate next) :
    PhaseOk w.row.waitingMessageId w.fate (w.sendFailed key release afterForbidden next answer).phase := by
  unfold sendFailed
  split
  · exact hforbidden
  · exact hrelease
  · unfold mayRetry
    split
    · exact hnext
    · exact hrelease
  · exact hnext

theorem noticeFailed_ok {t : NoticeTurn} {target : NoticeTarget} {answer : TelegramAnswer}
    (hknown : Within w.row.waitingMessageId t.waitingMessageId) :
    PhaseOk w.row.waitingMessageId w.fate (w.noticeFailed t target answer).phase := by
  refine sendFailed_ok trivial ?_ ?_
  · show Within _ _
    rw [next_waitingMessageId]
    exact hknown
  · show Within _ _
    rw [next_waitingMessageId]
    exact hknown

theorem edited_ok {t : NoticeTurn} {target : NoticeTarget} {answer : TelegramAnswer}
    (hknown : Within w.row.waitingMessageId t.waitingMessageId) :
    PhaseOk w.row.waitingMessageId w.fate (w.edited t target answer).phase := by
  have hnext : PhaseOk w.row.waitingMessageId w.fate (.serving (t.next target)) := by
    show Within _ _
    rw [next_waitingMessageId]
    exact hknown
  unfold edited
  split
  · exact hnext
  · exact hnext
  · exact sendNew_ok hknown
  · exact noticeFailed_ok hknown

theorem sent_ok {t : NoticeTurn} {target : NoticeTarget} {answer : TelegramAnswer}
    (hnone : w.row.waitingMessageId = none) :
    PhaseOk w.row.waitingMessageId w.fate (w.sent t target answer).phase := by
  have hknown : ∀ known, Within w.row.waitingMessageId known := by
    intro known
    rw [hnone]
    exact Within.nothing known
  unfold sent
  split
  · show PhaseOk _ _ (if _ then _ else _)
    split
    · exact hknown _
    · exact hnone
  · exact noticeFailed_ok (hknown _)

theorem recordCycle_ok {t : NoticeTurn} {target : NoticeTarget} {id : MessageId} {fromTrade : ℕ}
    (hnone : w.row.waitingMessageId = none) :
    PhaseOk w.row.waitingMessageId w.fate (w.recordCycle t target id fromTrade).phase := by
  have hknown : ∀ known, Within w.row.waitingMessageId known := by
    intro known
    rw [hnone]
    exact Within.nothing known
  unfold recordCycle
  split
  · exact hknown _
  · exact hknown _

theorem claimed_ok {t : NoticeTurn} {target : NoticeTarget} {fate : MessageId → Option WaitingFate}
    {recorded : Option MessageId} (hknown : Within recorded t.waitingMessageId) :
    PhaseOk recorded fate (w.claimed t target).phase := by
  show PhaseOk _ _ (if _ then _ else _)
  split
  · show Within _ _
    rw [next_waitingMessageId]
    exact hknown
  · exact hknown

theorem serve_ok {t : NoticeTurn} {i : SenderInput} (hknown : Within w.row.waitingMessageId t.waitingMessageId) :
    PhaseOk w.row.waitingMessageId w.fate (w.serve t i).phase := by
  unfold serve
  split
  · split
    · unfold sendTrade
      split
      · exact claimed_ok hknown
      · trivial
    · exact hknown
  · split
    · rename_i id _ hid
      exact ⟨hid, hid ▸ hknown⟩
    · exact hknown
  · split
    · split
      · exact hknown
      · unfold sendOpen
        split
        · exact claimed_ok hknown
        · trivial
    · exact hknown
  · split
    · trivial
    · split
      · unfold sendWaiting
        split
        · rename_i row hrow
          obtain ⟨hclaimable, _, _⟩ := SessionNotices.claimSessionWaiting_some hrow
          simp only [SessionNotices.waitingClaimable, Bool.and_eq_true, decide_eq_true_eq] at hclaimable
          exact hclaimable.1.1.1.2
        · trivial
      · trivial

theorem senderStep_ok (hw : w.Inv) (i : SenderInput) :
    PhaseOk (w.senderStep i).row.waitingMessageId (w.senderStep i).fate (w.senderStep i).phase := by
  have hphase := hw.phase
  have of_kept : ∀ {w' : WaitingWorld}, Kept w w' → PhaseOk w.row.waitingMessageId w.fate w'.phase →
      PhaseOk w'.row.waitingMessageId w'.fate w'.phase := by
    intro w' hkept hok
    rw [hkept.row, hkept.fate]
    exact hok
  unfold senderStep
  split
  · exact hphase
  all_goals rename_i hp
  all_goals rw [hp] at hphase
  · exact of_kept (kept_serve _ _) (serve_ok hphase)
  · rename_i t target
    unfold deliver
    split
    · exact hphase
    · exact of_kept (kept_sendNew t target) (sendNew_ok hphase)
  · exact of_kept (kept_edited _ _ _) (edited_ok hphase)
  · exact of_kept (kept_removeWaiting _ _ _) (removeWaiting_ok hphase.1 hphase.2)
  · exact hphase
  · refine of_kept (kept_deleteAnswered _ _ _ _) (deleteAnswered_ok hphase.1 ?_)
    rcases hphase.2 with h | ⟨h, _⟩
    · rw [h]
      exact Within.refl _
    · rw [h]
      exact Within.nothing _
  · exact clear_ok hphase.2.1
  · exact of_kept (kept_sent _ _ _) (sent_ok hphase)
  · exact of_kept (kept_recordCycle _ _ _ _) (recordCycle_ok hphase)
  · trivial
  · rename_i slot
    unfold waitingSent
    split
    · show PhaseOk _ _ (if _ then _ else _)
      split
      · trivial
      · exact hphase
    · exact of_kept (kept_sendFailed _ _ _ _ _) (sendFailed_ok trivial trivial trivial)
  · unfold recordWaiting
    split <;> trivial
  · trivial
  · trivial
  · rename_i id
    show PhaseOk _ _ (if _ then _ else _)
    split
    · exact hphase
    · trivial
  · rename_i id
    unfold captionEdited
    split
    · exact ⟨rfl, hphase⟩
    · trivial
    · trivial

/-- A message handed over while the sender is at any phase. -/
theorem phaseOk_handedOver {m : MessageId} {fate : MessageId → Option WaitingFate} {phase : SenderPhase}
    (h : PhaseOk (some m) fate phase) : PhaseOk none (Function.update fate m (some .handedOver)) phase := by
  cases phase with
  | idle => trivial
  | serving t => exact Within.nothing _
  | deliver t target => exact Within.nothing _
  | edit t target => exact Within.nothing _
  | remove t id why => exact ⟨h.1, Within.nothing _⟩
  | named t id why =>
    rcases h with ⟨ht, hid | ⟨hid, _⟩⟩
    · obtain rfl := Option.some.inj hid
      exact ⟨ht, .inr ⟨rfl, Function.update_self _ _ _⟩⟩
    · exact nomatch hid
  | deleting t id why =>
    rcases h with ⟨ht, hid | ⟨hid, _⟩⟩
    · obtain rfl := Option.some.inj hid
      exact ⟨ht, .inr ⟨rfl, Function.update_self _ _ _⟩⟩
    · exact nomatch hid
  | clear t id why fate => exact ⟨h.1, Within.nothing _, h.2.2⟩
  | send t target => rfl
  | record t target id => rfl
  | release target => trivial
  | sendWaiting slot => rfl
  | recordWaiting slot id => rfl
  | releaseWaiting slot => trivial
  | unrecorded id => trivial
  | captionListed id => exact Within.nothing _
  | captionEdit id => exact Within.nothing _

/-- A message cleared by the sender is not live any more; nor is one handed over. -/
theorem Inv.leftBy_ne_live (hw : w.Inv) {a : WaitingAct} {m : MessageId} {fate : WaitingFate}
    (hby : LeftBy w m a fate) : fate ≠ .live := by
  cases hby with
  | clear hphase =>
    have hok := hw.phase
    rw [hphase] at hok
    exact hok.2.2
  | stop _ => exact nofun
  | clearStopped _ => exact nofun

theorem Inv.live_act (hw : w.Inv) (a : WaitingAct) : (w.act a).Live := by
  have heffect := act_effect w a
  generalize w.act a = w' at heffect
  cases heffect with
  | quiet hrow hfate => exact Kept.live ⟨hrow, hfate⟩ hw.live
  | @recorded i slot m _ _ hnone hrow hfate _ =>
    intro m'
    rw [hfate, hrow]
    rcases eq_or_ne m' m with rfl | hm
    · simp
    · rw [Function.update_of_ne hm, hw.live m', hnone]
      exact ⟨nofun, fun h => absurd (Option.some.inj h).symm hm⟩
  | @left m fate hsome hrow hfate hby =>
    intro m'
    rw [hfate, hrow]
    rcases eq_or_ne m' m with rfl | hm
    · rw [Function.update_self]
      exact ⟨fun h => absurd (Option.some.inj h) (hw.leftBy_ne_live hby), nofun⟩
    · rw [Function.update_of_ne hm, hw.live m', hsome]
      exact ⟨fun h => absurd (Option.some.inj h).symm hm, nofun⟩

/-- An action that is not the sender's own keeps what its phase knows. -/
theorem Inv.phase_of_effect (hw : w.Inv) {a : WaitingAct} {w' : WaitingWorld} (heffect : WaitingEffect w a w')
    (ha : ∀ i, a ≠ .sender i) (hphase : w'.phase = w.phase) :
    PhaseOk w'.row.waitingMessageId w'.fate w'.phase := by
  rw [hphase]
  cases heffect with
  | quiet hrow hfate =>
    rw [hrow, hfate]
    exact hw.phase
  | recorded ha' => exact absurd ha' (ha _)
  | left hsome hrow hfate hby =>
    rw [hrow, hfate]
    have hok := hw.phase
    rw [hsome] at hok
    cases hby with
    | clear _ => exact absurd rfl (ha _)
    | stop _ => exact phaseOk_handedOver hok
    | clearStopped _ => exact phaseOk_handedOver hok

/-- **Every action keeps what the sender knows of the waiting message.** -/
theorem Inv.act (hw : w.Inv) (a : WaitingAct) : (w.act a).Inv := by
  refine ⟨hw.live_act a, ?_⟩
  have heffect := act_effect w a
  cases a with
  | sender i => exact senderStep_ok hw i
  | list =>
    simp only [WaitingWorld.act]
    split
    · exact Within.refl _
    · exact hw.phase
  | listCaptions =>
    simp only [WaitingWorld.act]
    split
    · rename_i id hid
      split
      · unfold captionListed at hid
        split at hid
        · show Within _ _
          rw [goto_row, hid]
          exact Within.refl _
        · exact nomatch hid
      · exact hw.phase
    · exact hw.phase
  | leave restart => trivial
  | stop reason waitingMessageId =>
    refine hw.phase_of_effect heffect nofun ?_
    simp only [WaitingWorld.act]
    split <;> rfl
  | clearStopped id =>
    refine hw.phase_of_effect heffect nofun ?_
    simp only [WaitingWorld.act]
    split
    · unfold clearRow
      split <;> rfl
    · rfl
  | recordStatus owned id => exact hw.phase_of_effect heffect nofun rfl
  | forgetStatus owned id => exact hw.phase_of_effect heffect nofun rfl
  | trades settled openTrade finished waitingForSignal => exact hw.phase_of_effect heffect nofun rfl
  | blocked value => exact hw.phase_of_effect heffect nofun rfl

theorem Inv.run (startedAt : DbTime) (acts : List WaitingAct) :
    (Lib.run WaitingWorld.act (.start startedAt) acts).Inv :=
  run_induction (.start startedAt) (fun _ a hw => hw.act a) acts

end WaitingWorld

end Binarius
