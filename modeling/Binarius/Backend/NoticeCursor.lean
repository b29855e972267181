import Mathlib.Tactic
import Binarius.Backend.SessionNotices

/-!
# Backend.NoticeCursor — the cursor of a session's notices

* `NoticeWorld.act_effect`: what an action can do to the claims, the cursor and the cycle message.
* `NoticeWorld.Inv.claimMet`: what a claim that succeeds found.
* `session_notice_cursor`: **the cursor claims each settled trade once, in order.**
-/

namespace Binarius

open Lib

namespace NoticeWorld

variable {s : SessionId} {w : NoticeWorld}

/-! ## What each action does -/

/-- A new claim: what its statement found and wrote. -/
inductive NewClaim (s : SessionId) (w : NoticeWorld) : NoticeAct → NoticeClaim → NoticeWorld → Prop
  | trade {now : DbTime} {claimed graceMs : ℕ} {facts : SessionFacts} {id : IntentId} {row : SessionNotices}
      (hfacts : w.db.sessionFacts s false = some facts) (hid : facts.settled[claimed]? = some id)
      (hrow : w.row.claimSessionTradeNotice facts now claimed graceMs = some row) :
      NewClaim s w (.claimTrade now claimed graceMs) ⟨.trade claimed id, .held⟩
        { w with row := row, claims := w.claims ++ [⟨.trade claimed id, .held⟩] }
  | block {now : DbTime} {settled graceMs : ℕ} {facts : SessionFacts} {id : IntentId} {row : SessionNotices}
      (hfacts : w.db.sessionFacts s false = some facts)
      (hrow : w.row.claimSessionOpenNotice facts now id settled graceMs = some row) :
      NewClaim s w (.claimOpen now id settled graceMs) ⟨.openBlock id settled, .held⟩
        { w with row := row, claims := w.claims ++ [⟨.openBlock id settled, .held⟩] }

/-- What an action leaves of the claims, the cursor, the cycle message and the final mark. -/
inductive Effect (s : SessionId) (w : NoticeWorld) : NoticeAct → NoticeWorld → Prop
  | quiet {a : NoticeAct} {w' : NoticeWorld} (hclaims : w'.claims = w.claims)
      (hcursor : w'.row.notifiedTrades = w.row.notifiedTrades)
      (hcycle : w'.row.cycleMessageId = w.row.cycleMessageId)
      (hfinal : w.row.finalNoticeSentAt ≠ none → w'.row.finalNoticeSentAt ≠ none) : Effect s w a w'
  | claim {a : NoticeAct} {c : NoticeClaim} {w' : NoticeWorld} (h : NewClaim s w a c w') : Effect s w a w'
  | release {n : ℕ} {target : NoticeTarget} {row : SessionNotices}
      (hc : w.claims[n]? = some ⟨target, .held⟩) (hrow : releaseRow w.row target = some row) :
      Effect s w (.release n)
        { w with row := row, claims := w.claims.modify n (fun c => { c with state := .released }) }
  | record {n : ℕ} {messageId : MessageId} {fromTrade : ℕ} {target : NoticeTarget} {row : SessionNotices}
      (hc : w.claims[n]? = some ⟨target, .held⟩)
      (hrow : recordRow w.row messageId fromTrade target = some row) :
      Effect s w (.record n messageId fromTrade)
        { w with row := row, claims := w.claims.modify n (fun c => { c with state := .recorded }) }
  | refused {a : NoticeAct} {n : ℕ} {target : NoticeTarget} (hc : w.claims[n]? = some ⟨target, .held⟩) :
      Effect s w a { w with claims := w.claims.modify n (fun c => { c with state := .refused }) }

/-- Nothing of the four moves. -/
theorem Effect.refl {a : NoticeAct} : Effect s w a w := .quiet rfl rfl rfl (fun h => h)

theorem Effect.of_write {a : NoticeAct} {row : Option SessionNotices}
    (h : ∀ row', row = some row' → row'.notifiedTrades = w.row.notifiedTrades ∧
      row'.cycleMessageId = w.row.cycleMessageId ∧
      (w.row.finalNoticeSentAt ≠ none → row'.finalNoticeSentAt ≠ none)) : Effect s w a (w.write row) := by
  cases row with
  | none => exact .refl
  | some row' =>
    obtain ⟨h1, h2, h3⟩ := h row' rfl
    exact .quiet rfl h1 h2 h3

/-- **What an action can do.** -/
theorem act_effect (s : SessionId) (w : NoticeWorld) (a : NoticeAct) : Effect s w a (w.act s a) := by
  cases a with
  | trading a =>
    unfold NoticeWorld.act
    split
    · split
      · exact .refl
      · exact .quiet rfl rfl rfl (fun h => h)
    · exact .quiet rfl rfl rfl (fun h => h)
    all_goals (rename_i heq; cases heq)
  | stop reason waitingMessageId =>
    simp only [NoticeWorld.act]
    split
    · refine .quiet rfl ?_ ?_ (fun h => ?_)
      · show (w.row.stopped reason waitingMessageId).notifiedTrades = _
        unfold SessionNotices.stopped
        split <;> rfl
      · show (w.row.stopped reason waitingMessageId).cycleMessageId = _
        unfold SessionNotices.stopped
        split <;> rfl
      · show (w.row.stopped reason waitingMessageId).finalNoticeSentAt ≠ none
        unfold SessionNotices.stopped
        split <;> exact h
    · exact .refl
  | claimTrade now claimed graceMs =>
    simp only [NoticeWorld.act]
    split
    · rename_i facts hfacts
      split
      · rename_i id hid
        cases hrow : w.row.claimSessionTradeNotice facts now claimed graceMs with
        | none => exact .refl
        | some row => exact .claim (.trade hfacts hid hrow)
      · exact .refl
    · exact .refl
  | claimOpen now intentId settled graceMs =>
    simp only [NoticeWorld.act]
    split
    · rename_i facts hfacts
      cases hrow : w.row.claimSessionOpenNotice facts now intentId settled graceMs with
      | none => exact .refl
      | some row => exact .claim (.block hfacts hrow)
    · exact .refl
  | release n =>
    simp only [NoticeWorld.act]
    split
    · rename_i target hc
      cases hrow : releaseRow w.row target with
      | none => exact .refused hc
      | some row => exact .release hc hrow
    · exact .refl
  | record n messageId fromTrade =>
    simp only [NoticeWorld.act]
    split
    · rename_i target hc
      cases hrow : recordRow w.row messageId fromTrade target with
      | none => exact .refused hc
      | some row => exact .record hc hrow
    · exact .refl
  | claimFinal now closeSummary =>
    simp only [NoticeWorld.act]
    split
    · rename_i facts hfacts
      split
      · cases hrow : w.row.claimSessionFinalNotice facts now true with
        | none => exact .refl
        | some row =>
          obtain ⟨_, _, _, _, rfl⟩ := SessionNotices.claimSessionFinalNotice_some hrow
          exact .quiet rfl rfl rfl (fun _ => Option.some_ne_none _)
      · refine .of_write (fun row' hrow => ?_)
        obtain ⟨_, _, _, _, rfl⟩ := SessionNotices.claimSessionFinalNotice_some hrow
        exact ⟨rfl, rfl, fun _ => Option.some_ne_none _⟩
    · exact .refl
  | claimSummary now owned =>
    simp only [NoticeWorld.act]
    split
    · rename_i facts _
      cases hrow : w.row.claimSessionSummary facts now owned with
      | none => exact .refl
      | some row =>
        obtain ⟨_, _, _, rfl⟩ := SessionNotices.claimSessionSummary_some hrow
        exact .quiet rfl rfl rfl (fun h => h)
    · exact .refl
  | claimFallback now =>
    simp only [NoticeWorld.act]
    split
    · rename_i facts _
      cases hrow : w.row.claimSummaryFallback facts now with
      | none => exact .refl
      | some row =>
        obtain ⟨_, _, rfl⟩ := SessionNotices.claimSummaryFallback_some hrow
        exact .quiet rfl rfl rfl (fun h => h)
    · exact .refl
  | releaseFallback n =>
    simp only [NoticeWorld.act]
    split
    · rename_i claimedAt hc
      split
      · rename_i row hrow
        obtain ⟨_, rfl⟩ := SessionNotices.releaseSummaryFallback_some hrow
        exact .quiet rfl rfl rfl (fun h => h)
      · exact .quiet rfl rfl rfl (fun h => h)
    · exact .refl
  | claimWaiting waitingForSignal =>
    simp only [NoticeWorld.act]
    split
    · refine .of_write (fun row' hrow => ?_)
      obtain ⟨_, _, rfl⟩ := SessionNotices.claimSessionWaiting_some hrow
      exact ⟨rfl, rfl, fun h => h⟩
    · exact .refl
  | recordWaiting slot messageId =>
    simp only [NoticeWorld.act]
    split
    · refine .of_write (fun row' hrow => ?_)
      obtain ⟨_, _, _, rfl⟩ := SessionNotices.recordSessionWaitingMessage_some hrow
      exact ⟨rfl, rfl, fun h => h⟩
    · exact .refl
  | releaseWaiting slot =>
    refine .of_write (fun row' hrow => ?_)
    obtain ⟨_, _, rfl⟩ := SessionNotices.releaseSessionWaiting_some hrow
    exact ⟨rfl, rfl, fun h => h⟩
  | clearWaiting messageId =>
    refine .of_write (fun row' hrow => ?_)
    obtain ⟨_, rfl⟩ := SessionNotices.clearSessionWaitingMessage_some hrow
    exact ⟨rfl, rfl, fun h => h⟩
  | recordStatus owned messageId =>
    simp only [NoticeWorld.act]
    split
    · refine .of_write (fun row' hrow => ?_)
      obtain rfl := SessionNotices.recordSessionStatusMessage_some hrow
      exact ⟨rfl, rfl, fun h => h⟩
    · exact .refl
  | forgetStatus owned messageId =>
    refine .of_write (fun row' hrow => ?_)
    obtain rfl := SessionNotices.forgetSessionStatusMessage_some hrow
    exact ⟨rfl, rfl, fun h => h⟩

/-! ## The cursor -/

/-- The place a claim left the cursor at, and an open block's mark. -/
def StandsAt (w : NoticeWorld) : NoticeTarget → Prop
  | .trade claimed _ => w.row.notifiedTrades = claimed + 1
  | .openBlock id settled => w.row.notifiedTrades = settled ∧ w.row.openNoticeIntentId = some id

/-- What a successful claim met: it is of the cursor's next trade or of an unmarked block, every earlier
claim of its subject was released, the notices are open and the first message is not held. -/
structure ClaimMet (s : SessionId) (w w' : NoticeWorld) (a : NoticeAct) (c : NoticeClaim) : Prop where
  next : ∀ k id, c.target = .trade k id → k = w.row.notifiedTrades ∧ w'.row.notifiedTrades = k + 1 ∧
    (w.db.settledTrades s)[k]? = some id
  released : ∀ (n : ℕ) (c' : NoticeClaim), w.claims[n]? = some c' → c'.target.subject = c.target.subject →
    c'.state = .released
  notClosed : w.row.finalNoticeSentAt = none
  hold : ∀ now graceMs, a.hold = some (now, graceMs) →
    w.row.anchored = true ∨ w.row.startedAt ≤ now - graceMs * 1000

theorem not_held {row : SessionNotices} {now : DbTime} {graceMs : ℕ}
    (h : row.firstNoticeHeld now graceMs = false) :
    row.anchored = true ∨ row.startedAt ≤ now - graceMs * 1000 := by
  rw [SessionNotices.firstNoticeHeld, Bool.and_eq_false_iff] at h
  rcases h with h | h
  · exact .inl (by simpa using h)
  · exact .inr (not_lt.mp (of_decide_eq_false h))

/-- An unreleased claim of a subject about to be claimed again: the new claim would be a second one. -/
theorem Inv.earlier_released {w' : NoticeWorld} {c : NoticeClaim} (hw' : w'.Inv s)
    (hclaims : w'.claims = w.claims ++ [c]) (hc : c.state ≠ .released) (n : ℕ) (c' : NoticeClaim)
    (hc' : w.claims[n]? = some c') (hsubject : c'.target.subject = c.target.subject) :
    c'.state = .released := by
  by_contra hstate
  have hold : w'.claims[n]? = some c' := by
    rw [hclaims]
    exact getElem?_snoc.mpr (.inl hc')
  have hnew : w'.claims[w.claims.length]? = some c := by
    rw [hclaims]
    exact getElem?_snoc.mpr (.inr ⟨rfl, rfl⟩)
  have hn := hw'.single c.target.subject n w.claims.length c' c hold hnew ⟨hstate, hsubject⟩ ⟨hc, rfl⟩
  have hlt := (List.getElem?_eq_some_iff.mp hc').1
  omega

theorem Inv.claimMet (hw : w.Inv s) {a : NoticeAct} {c : NoticeClaim} (h : NewClaim s w a c (w.act s a)) :
    ClaimMet s w (w.act s a) a c := by
  have hw' := hw.act a
  generalize w.act s a = w' at h hw'
  cases h with
  | trade hfacts hid hrow =>
    obtain ⟨hsettled, _⟩ := sessionFacts_some hfacts
    obtain ⟨hcursor, hfinal, _, hheld, hrow'⟩ := SessionNotices.claimSessionTradeNotice_some hrow
    refine ⟨fun k id htarget => ?_, hw'.earlier_released rfl nofun, hfinal, fun now graceMs h => ?_⟩
    · obtain ⟨rfl, rfl⟩ := NoticeTarget.trade.inj htarget
      rw [hsettled] at hid
      exact ⟨hcursor.symm, by rw [hrow'], hid⟩
    · obtain ⟨rfl, rfl⟩ := Prod.mk.inj (Option.some.inj h)
      exact not_held hheld
  | block hfacts hrow =>
    obtain ⟨_, hfinal, _, _, _, hheld, _⟩ := SessionNotices.claimSessionOpenNotice_some hrow
    refine ⟨fun k id htarget => (nomatch htarget), hw'.earlier_released rfl nofun, hfinal, fun now graceMs h => ?_⟩
    obtain ⟨rfl, rfl⟩ := Prod.mk.inj (Option.some.inj h)
    exact not_held hheld

/-- An action that leaves an entry past the claims made a new claim. -/
theorem newClaim_of_getElem? {a : NoticeAct} {c : NoticeClaim}
    (h : (w.act s a).claims[w.claims.length]? = some c) : NewClaim s w a c (w.act s a) := by
  have hno : ∀ l : List NoticeClaim, l.length = w.claims.length → l[w.claims.length]? ≠ some c := by
    intro l hlen hsome
    rw [List.getElem?_eq_none hlen.le] at hsome
    exact nomatch hsome
  have heffect := act_effect s w a
  generalize w.act s a = w' at h heffect
  cases heffect with
  | quiet hclaims _ _ _ => exact absurd h (hno _ (by rw [hclaims]))
  | claim hnew =>
    have hclaims : ∃ c', w'.claims = w.claims ++ [c'] ∧ NewClaim s w a c' w' := by
      cases hnew with
      | trade hfacts hid hrow => exact ⟨_, rfl, .trade hfacts hid hrow⟩
      | block hfacts hrow => exact ⟨_, rfl, .block hfacts hrow⟩
    obtain ⟨c', hclaims, hnew'⟩ := hclaims
    rw [hclaims, List.getElem?_concat_length] at h
    obtain rfl := Option.some.inj h
    exact hnew'
  | release hc hrow => exact absurd h (hno _ (List.length_modify _ _ _))
  | record hc hrow => exact absurd h (hno _ (List.length_modify _ _ _))
  | refused hc => exact absurd h (hno _ (List.length_modify _ _ _))

/-- A cycle message is recorded by a claimant whose claim the cursor still stands at. -/
theorem record_of_cycle_ne {a : NoticeAct} (h : (w.act s a).row.cycleMessageId ≠ w.row.cycleMessageId) :
    ∃ n messageId fromTrade target, a = .record n messageId fromTrade ∧
      w.claims[n]? = some ⟨target, .held⟩ ∧ w.StandsAt target ∧ w.row.finalNoticeSentAt = none ∧
      (w.act s a).row.cycleMessageId = some messageId := by
  have heffect := act_effect s w a
  generalize w.act s a = w' at h heffect
  cases heffect with
  | quiet _ _ hcycle _ => exact absurd hcycle h
  | claim hnew =>
    cases hnew with
    | trade hfacts hid hrow =>
      obtain ⟨_, _, _, _, rfl⟩ := SessionNotices.claimSessionTradeNotice_some hrow
      exact absurd rfl h
    | block hfacts hrow =>
      obtain ⟨_, _, _, _, _, _, rfl⟩ := SessionNotices.claimSessionOpenNotice_some hrow
      exact absurd rfl h
  | @release n target row hc hrow =>
    cases target with
    | trade k id =>
      obtain ⟨_, _, rfl⟩ := SessionNotices.releaseSessionTradeNotice_some hrow
      exact absurd rfl h
    | openBlock id k =>
      obtain ⟨_, rfl⟩ := SessionNotices.releaseSessionOpenNotice_some hrow
      exact absurd rfl h
  | @record n messageId fromTrade target row hc hrow =>
    obtain ⟨hfinal, rfl⟩ := recordRow_some hrow
    refine ⟨n, messageId, fromTrade, target, rfl, hc, ?_, hfinal, rfl⟩
    cases target with
    | trade k id => exact (SessionNotices.recordSessionCycleMessage_some hrow).1
    | openBlock id k =>
      obtain ⟨hcursor, _, hmark, _⟩ := SessionNotices.recordSessionCycleMessage_some hrow
      exact ⟨hcursor, hmark id rfl⟩
  | refused hc => exact absurd rfl h

/-- A claim is released by its own claimant only. -/
theorem released_by_claimant {a : NoticeAct} {n : ℕ} {c c' : NoticeClaim} (hc : w.claims[n]? = some c)
    (hc' : (w.act s a).claims[n]? = some c') (hstate : c.state ≠ .released) (hreleased : c'.state = .released) :
    a = .release n := by
  have hsame : w.claims[n]? = some c' → False := by
    intro h
    obtain rfl := Option.some.inj (hc.symm.trans h)
    exact hstate hreleased
  have heffect := act_effect s w a
  generalize w.act s a = w' at hc' heffect
  cases heffect with
  | quiet hclaims _ _ _ =>
    rw [hclaims] at hc'
    exact (hsame hc').elim
  | claim hnew =>
    have hlt := (List.getElem?_eq_some_iff.mp hc).1
    cases hnew with
    | trade hfacts hid hrow =>
      rcases getElem?_snoc.mp hc' with h | ⟨rfl, _⟩
      · exact (hsame h).elim
      · exact absurd hlt (lt_irrefl _)
    | block hfacts hrow =>
      rcases getElem?_snoc.mp hc' with h | ⟨rfl, _⟩
      · exact (hsame h).elim
      · exact absurd hlt (lt_irrefl _)
  | release hc₀ hrow =>
    rcases getElem?_modify_some hc' with ⟨rfl, _⟩ | ⟨_, h⟩
    · rfl
    · exact (hsame h).elim
  | record hc₀ hrow =>
    rcases getElem?_modify_some hc' with ⟨rfl, y, hy, rfl⟩ | ⟨_, h⟩
    · exact nomatch hreleased
    · exact (hsame h).elim
  | refused hc₀ =>
    rcases getElem?_modify_some hc' with ⟨rfl, y, hy, rfl⟩ | ⟨_, h⟩
    · exact nomatch hreleased
    · exact (hsame h).elim

/-- Closed notices claim and record nothing. -/
theorem closed_act {a : NoticeAct} (hfinal : w.row.finalNoticeSentAt ≠ none) :
    (w.act s a).row.finalNoticeSentAt ≠ none ∧ (w.act s a).claims.length = w.claims.length ∧
      (w.act s a).row.notifiedTrades = w.row.notifiedTrades ∧
      (w.act s a).row.cycleMessageId = w.row.cycleMessageId := by
  have heffect := act_effect s w a
  generalize w.act s a = w' at heffect
  cases heffect with
  | quiet hclaims hcursor hcycle hkeep => exact ⟨hkeep hfinal, by rw [hclaims], hcursor, hcycle⟩
  | claim hnew =>
    cases hnew with
    | trade hfacts hid hrow => exact absurd (SessionNotices.claimSessionTradeNotice_some hrow).2.1 hfinal
    | block hfacts hrow => exact absurd (SessionNotices.claimSessionOpenNotice_some hrow).2.1 hfinal
  | @release n target row hc hrow =>
    cases target with
    | trade k id => exact absurd (SessionNotices.releaseSessionTradeNotice_some hrow).2.1 hfinal
    | openBlock id k =>
      obtain ⟨_, rfl⟩ := SessionNotices.releaseSessionOpenNotice_some hrow
      exact ⟨hfinal, List.length_modify _ _ _, rfl, rfl⟩
  | record hc hrow => exact absurd (recordRow_some hrow).1 hfinal
  | refused hc => exact ⟨hfinal, List.length_modify _ _ _, rfl, rfl⟩

theorem closed_run (hfinal : w.row.finalNoticeSentAt ≠ none) (later : List NoticeAct) :
    (Lib.run (NoticeWorld.act s) w later).row.finalNoticeSentAt ≠ none ∧
      (Lib.run (NoticeWorld.act s) w later).claims.length = w.claims.length ∧
      (Lib.run (NoticeWorld.act s) w later).row.notifiedTrades = w.row.notifiedTrades ∧
      (Lib.run (NoticeWorld.act s) w later).row.cycleMessageId = w.row.cycleMessageId := by
  induction later generalizing w with
  | nil => exact ⟨hfinal, rfl, rfl, rfl⟩
  | cons a later ih =>
    obtain ⟨hfinal', hclaims, hcursor, hcycle⟩ := closed_act (s := s) (a := a) hfinal
    obtain ⟨h1, h2, h3, h4⟩ := ih hfinal'
    exact ⟨h1, h2.trans hclaims, h3.trans hcursor, h4.trans hcycle⟩

end NoticeWorld

/-- **Session notice cursor.**  After any interleaving, the trades below the cursor are claimed and no
more than are settled; a claim that succeeds is of the cursor's next trade or of an unmarked open block,
after every earlier claim of the same trade or block was released, with the notices open and the first
message not held; a claim is released by its own claimant only; a cycle message is recorded by a claimant
whose claim the cursor stands at; and closed notices claim and record nothing more. -/
theorem session_notice_cursor (s : SessionId) (db : Db) (clock : UnixMs) (startedAt : DbTime)
    (acts : List NoticeAct) :
    let w := run (NoticeWorld.act s) (.start db clock startedAt) acts
    w.row.notifiedTrades ≤ (w.db.settledTrades s).length ∧
    (∀ k < w.row.notifiedTrades, ∃ (n : ℕ) (id : IntentId) (state : ClaimState),
      w.claims[n]? = some ⟨.trade k id, state⟩ ∧ state ≠ .released ∧
        (w.db.settledTrades s)[k]? = some id) ∧
    (∀ a c, (w.act s a).claims[w.claims.length]? = some c → NoticeWorld.ClaimMet s w (w.act s a) a c) ∧
    (∀ a (n : ℕ) (c c' : NoticeClaim), w.claims[n]? = some c → (w.act s a).claims[n]? = some c' →
      c.state ≠ .released → c'.state = .released → a = .release n) ∧
    (∀ a, (w.act s a).row.cycleMessageId ≠ w.row.cycleMessageId →
      ∃ n messageId fromTrade target, a = .record n messageId fromTrade ∧
        w.claims[n]? = some ⟨target, .held⟩ ∧ w.StandsAt target ∧ w.row.finalNoticeSentAt = none ∧
        (w.act s a).row.cycleMessageId = some messageId) ∧
    (w.row.finalNoticeSentAt ≠ none → ∀ later,
      (run (NoticeWorld.act s) w later).claims.length = w.claims.length ∧
      (run (NoticeWorld.act s) w later).row.notifiedTrades = w.row.notifiedTrades ∧
      (run (NoticeWorld.act s) w later).row.cycleMessageId = w.row.cycleMessageId) := by
  intro w
  have hw : w.Inv s := NoticeWorld.Inv.run s db clock startedAt acts
  refine ⟨hw.cursor, fun k hk => ?_, fun a c hc => ?_, fun a n c c' hc hc' => ?_, fun a h => ?_,
    fun hfinal later => ?_⟩
  · obtain ⟨n, ⟨target, state⟩, id, hc, rfl, hstate⟩ := hw.covered k hk
    exact ⟨n, id, state, hc, hstate, (hw.trades n _ hc k id rfl).1⟩
  · exact hw.claimMet (NoticeWorld.newClaim_of_getElem? hc)
  · exact NoticeWorld.released_by_claimant hc hc'
  · exact NoticeWorld.record_of_cycle_ne h
  · exact (NoticeWorld.closed_run hfinal later).2

end Binarius
