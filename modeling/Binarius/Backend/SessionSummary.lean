import Mathlib.Tactic
import Binarius.Backend.SessionNotices

/-!
# Backend.SessionSummary — the summary of a session and its three claimants

* `NoticeWorld.Inv.summary_effect`: what an action can do to the summary's mark and its claims.
* `session_summary_once`: **a session's summary is claimed once, after everything else.**
-/

namespace Binarius

open Lib

namespace NoticeWorld

variable {s : SessionId} {w : NoticeWorld}

/-- What an action leaves of the summary's mark and its claims. -/
inductive SummaryEffect (s : SessionId) (w : NoticeWorld) : NoticeAct → NoticeWorld → Prop
  | quiet {a : NoticeAct} {w' : NoticeWorld} (hclaims : w'.summaries = w.summaries)
      (hmark : w'.row.summarySentAt = w.row.summarySentAt) : SummaryEffect s w a w'
  | claim {a : NoticeAct} {writer : SummaryWriter} {now : DbTime} {row : SessionNotices}
      (hnone : w.row.summarySentAt = none) (hcomplete : Complete w.db s w.row) :
      SummaryEffect s w a { w with row := row, summaries := w.summaries ++ [⟨writer, now, .held⟩] }
  | release {n : ℕ} {claimedAt : DbTime} (hc : w.summaries[n]? = some ⟨.fallback, claimedAt, .held⟩) :
      SummaryEffect s w (.releaseFallback n)
        { w with
          row := { w.row with summarySentAt := none }
          summaries := w.summaries.modify n (fun c => { c with state := .released }) }

theorem SummaryEffect.refl {a : NoticeAct} : SummaryEffect s w a w := .quiet rfl rfl

theorem SummaryEffect.of_write {a : NoticeAct} {row : Option SessionNotices}
    (h : ∀ row', row = some row' → row'.summarySentAt = w.row.summarySentAt) :
    SummaryEffect s w a (w.write row) := by
  cases row with
  | none => exact .refl
  | some row' => exact .quiet rfl (h row' rfl)

/-- **What an action can do to the summary.** -/
theorem Inv.summary_effect (hw : w.Inv s) (a : NoticeAct) : SummaryEffect s w a (w.act s a) := by
  cases a with
  | trading a =>
    unfold NoticeWorld.act
    split
    · split
      · exact .refl
      · exact .quiet rfl rfl
    · exact .quiet rfl rfl
    all_goals (rename_i heq; exact nomatch heq)
  | stop reason waitingMessageId =>
    simp only [NoticeWorld.act]
    split
    · refine .quiet rfl ?_
      show (w.row.stopped reason waitingMessageId).summarySentAt = _
      unfold SessionNotices.stopped
      split <;> rfl
    · exact .refl
  | claimTrade now claimed graceMs =>
    simp only [NoticeWorld.act]
    split
    · rename_i facts _
      split
      · cases hrow : w.row.claimSessionTradeNotice facts now claimed graceMs with
        | none => exact .refl
        | some row =>
          obtain ⟨_, _, _, _, rfl⟩ := SessionNotices.claimSessionTradeNotice_some hrow
          exact .quiet rfl rfl
      · exact .refl
    · exact .refl
  | claimOpen now intentId settled graceMs =>
    simp only [NoticeWorld.act]
    split
    · rename_i facts _
      cases hrow : w.row.claimSessionOpenNotice facts now intentId settled graceMs with
      | none => exact .refl
      | some row =>
        obtain ⟨_, _, _, _, _, _, rfl⟩ := SessionNotices.claimSessionOpenNotice_some hrow
        exact .quiet rfl rfl
    · exact .refl
  | release n =>
    simp only [NoticeWorld.act]
    split
    · rename_i target _
      cases hrow : releaseRow w.row target with
      | none => exact .quiet rfl rfl
      | some row =>
        refine .quiet rfl ?_
        cases target with
        | trade k id =>
          obtain ⟨_, _, rfl⟩ := SessionNotices.releaseSessionTradeNotice_some hrow
          rfl
        | openBlock id k =>
          obtain ⟨_, rfl⟩ := SessionNotices.releaseSessionOpenNotice_some hrow
          rfl
    · exact .refl
  | record n messageId fromTrade =>
    simp only [NoticeWorld.act]
    split
    · rename_i target _
      cases hrow : recordRow w.row messageId fromTrade target with
      | none => exact .quiet rfl rfl
      | some row =>
        obtain ⟨_, rfl⟩ := recordRow_some hrow
        exact .quiet rfl rfl
    · exact .refl
  | claimFinal now closeSummary =>
    simp only [NoticeWorld.act]
    split
    · rename_i facts hfacts
      obtain ⟨hsettled, _, hfinished, _⟩ := sessionFacts_some hfacts
      split
      · cases hrow : w.row.claimSessionFinalNotice facts now true with
        | none => exact .refl
        | some row =>
          obtain ⟨hfinal, hfin, hclaimed, hwaiting, _⟩ := SessionNotices.claimSessionFinalNotice_some hrow
          rw [hfinished] at hfin
          rw [hsettled] at hclaimed
          exact .claim (hw.summary_none hfinal) ⟨hfin, hclaimed, hwaiting⟩
      · refine .of_write (fun row' hrow => ?_)
        obtain ⟨_, _, _, _, rfl⟩ := SessionNotices.claimSessionFinalNotice_some hrow
        rfl
    · exact .refl
  | claimSummary now owned =>
    simp only [NoticeWorld.act]
    split
    · rename_i facts _
      cases hrow : w.row.claimSessionSummary facts now owned with
      | none => exact .refl
      | some row =>
        obtain ⟨_, hfinal, hnone, _⟩ := SessionNotices.claimSessionSummary_some hrow
        exact .claim hnone (hw.closed hfinal)
    · exact .refl
  | claimFallback now =>
    simp only [NoticeWorld.act]
    split
    · rename_i facts _
      cases hrow : w.row.claimSummaryFallback facts now with
      | none => exact .refl
      | some row =>
        obtain ⟨hfinal, hnone, _⟩ := SessionNotices.claimSummaryFallback_some hrow
        exact .claim hnone (hw.closed hfinal)
    · exact .refl
  | releaseFallback n =>
    simp only [NoticeWorld.act]
    split
    · rename_i claimedAt hc
      rw [hw.fallback_mark hc]
      exact .release hc
    · exact .refl
  | claimWaiting waitingForSignal =>
    simp only [NoticeWorld.act]
    split
    · refine .of_write (fun row' hrow => ?_)
      obtain ⟨_, _, rfl⟩ := SessionNotices.claimSessionWaiting_some hrow
      rfl
    · exact .refl
  | recordWaiting slot messageId =>
    simp only [NoticeWorld.act]
    split
    · refine .of_write (fun row' hrow => ?_)
      obtain ⟨_, _, _, rfl⟩ := SessionNotices.recordSessionWaitingMessage_some hrow
      rfl
    · exact .refl
  | releaseWaiting slot =>
    refine .of_write (fun row' hrow => ?_)
    obtain ⟨_, _, rfl⟩ := SessionNotices.releaseSessionWaiting_some hrow
    rfl
  | clearWaiting messageId =>
    refine .of_write (fun row' hrow => ?_)
    obtain ⟨_, rfl⟩ := SessionNotices.clearSessionWaitingMessage_some hrow
    rfl
  | recordStatus owned messageId =>
    simp only [NoticeWorld.act]
    split
    · refine .of_write (fun row' hrow => ?_)
      obtain rfl := SessionNotices.recordSessionStatusMessage_some hrow
      rfl
    · exact .refl
  | forgetStatus owned messageId =>
    refine .of_write (fun row' hrow => ?_)
    obtain rfl := SessionNotices.forgetSessionStatusMessage_some hrow
    rfl

/-- A mark leaves the row by the release of the claim that wrote it. -/
theorem Inv.mark_cleared (hw : w.Inv s) {a : NoticeAct} {t : DbTime} (hmark : w.row.summarySentAt = some t)
    (hne : (w.act s a).row.summarySentAt ≠ some t) :
    ∃ n, a = .releaseFallback n ∧ w.summaries[n]? = some ⟨.fallback, t, .held⟩ ∧
      (w.act s a).row.summarySentAt = none := by
  have heffect := hw.summary_effect a
  generalize w.act s a = w' at hne heffect
  cases heffect with
  | quiet _ hsame => exact absurd (hsame.trans hmark) hne
  | claim hnone _ =>
    rw [hnone] at hmark
    exact nomatch hmark
  | @release n claimedAt hc =>
    obtain rfl : claimedAt = t := Option.some.inj ((hw.summaryMark n _ hc nofun).symm.trans hmark)
    exact ⟨n, rfl, hc, rfl⟩

/-- A claim of the summary found everything done. -/
theorem Inv.summary_claimed (hw : w.Inv s) {a : NoticeAct} {c : SummaryClaim}
    (hc : (w.act s a).summaries[w.summaries.length]? = some c) : Complete w.db s w.row := by
  have hno : ∀ l : List SummaryClaim, l.length = w.summaries.length → l[w.summaries.length]? ≠ some c := by
    intro l hlen hsome
    rw [List.getElem?_eq_none hlen.le] at hsome
    exact nomatch hsome
  have heffect := hw.summary_effect a
  generalize w.act s a = w' at hc heffect
  cases heffect with
  | quiet hclaims _ => exact absurd hc (hno _ (by rw [hclaims]))
  | claim _ hcomplete => exact hcomplete
  | release _ => exact absurd hc (hno _ (List.length_modify _ _ _))

end NoticeWorld

/-- **A session's summary is claimed once.**  After any interleaving at most one claim of the summary is
unreleased, and the mark is its own; a release that clears the mark is of the claim that wrote it; a claim
succeeds only on a finished session whose settled trades are all claimed and with no waiting message
recorded; and after a claim these three stay so. -/
theorem session_summary_once (s : SessionId) (db : Db) (clock : UnixMs) (startedAt : DbTime)
    (acts : List NoticeAct) :
    let w := run (NoticeWorld.act s) (.start db clock startedAt) acts
    AtMostOne SummaryClaim.holds w.summaries ∧
    (∀ (n : ℕ) (c : SummaryClaim), w.summaries[n]? = some c → c.state ≠ .released →
      w.row.summarySentAt = some c.claimedAt) ∧
    (∀ a t, w.row.summarySentAt = some t → (w.act s a).row.summarySentAt ≠ some t →
      ∃ n, a = .releaseFallback n ∧ w.summaries[n]? = some ⟨.fallback, t, .held⟩ ∧
        (w.act s a).row.summarySentAt = none) ∧
    (∀ a c, (w.act s a).summaries[w.summaries.length]? = some c →
      w.db.sessionFinished s = true ∧ w.row.notifiedTrades = (w.db.settledTrades s).length ∧
      w.row.waitingMessageId = none) ∧
    (w.summaries ≠ [] → w.db.sessionFinished s = true ∧
      w.row.notifiedTrades = (w.db.settledTrades s).length ∧ w.row.waitingMessageId = none) := by
  intro w
  have hw : w.Inv s := NoticeWorld.Inv.run s db clock startedAt acts
  refine ⟨hw.summarySingle, hw.summaryMark, fun a t hmark hne => hw.mark_cleared hmark hne,
    fun a c hc => ?_, fun hne => ?_⟩
  · have hcomplete := hw.summary_claimed hc
    exact ⟨hcomplete.finished, hcomplete.claimed, hcomplete.waiting⟩
  · have hcomplete := hw.closed (hw.claimedSummary hne)
    exact ⟨hcomplete.finished, hcomplete.claimed, hcomplete.waiting⟩

end Binarius
