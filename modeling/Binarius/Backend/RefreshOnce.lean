import Mathlib.Tactic
import Binarius.Backend.TokenService

/-!
# Backend.RefreshOnce — when a refresh token that may be spent stays off the wire

A transaction that dies after its exchange leaves the spent token in the row, and the row unlocked, until
the second transaction revokes the account.

* `TokenWorld.Lost`: that moment; `TokenWorld.Waits`: no caller uses the row's refresh token in it.
* `refresh_once`: **in every run that waits so, no token is presented after it may have been spent.**
* `refresh_replayed`: a run that does not.
-/

namespace Binarius

open Lib

/-! ## What the broker saw -/

/-- The token was presented, and may have been spent. -/
def Spent (log : List RefreshEvent) (t : Token) : Prop :=
  ∃ answer, .answered t answer ∈ log ∧ answer.maySpend = true

/-- No token was presented after it may have been spent; the log is newest first. -/
def NoReplay : List RefreshEvent → Prop
  | [] => True
  | .presented t :: earlier => ¬ Spent earlier t ∧ NoReplay earlier
  | .answered _ _ :: earlier => NoReplay earlier

theorem spent_presented {log : List RefreshEvent} {t t' : Token} :
    Spent (.presented t' :: log) t ↔ Spent log t := by
  simp [Spent]

theorem spent_answered {log : List RefreshEvent} {t t' : Token} {answer : RefreshAnswer} :
    Spent (.answered t' answer :: log) t ↔ (t = t' ∧ answer.maySpend = true) ∨ Spent log t := by
  constructor
  · rintro ⟨answer', hmem, hspend⟩
    rcases List.mem_cons.mp hmem with heq | hmem
    · obtain ⟨rfl, rfl⟩ := RefreshEvent.answered.inj heq
      exact .inl ⟨rfl, hspend⟩
    · exact .inr ⟨answer', hmem, hspend⟩
  · rintro (⟨rfl, hspend⟩ | ⟨answer', hmem, hspend⟩)
    · exact ⟨answer, List.mem_cons_self, hspend⟩
    · exact ⟨answer', List.mem_cons_of_mem _ hmem, hspend⟩

/-! ## The decision under the lock -/

section Decisions

variable {hashToken : Token → TokenHash} {keyId : ℕ} {options : AccessTokenOptions}
  {now dbNow : UnixMs} {userBlocked : Bool} {account : AccountTokens}

/-- The decision presents the row's refresh token, or writes the hash it lacked. -/
def LockedDecision.uses (account : AccountTokens) : LockedDecision → Prop
  | .answer _ account' => account'.refreshTokenHash ≠ account.refreshTokenHash
  | .exchange _ _ _ => True

/-- What a decision leaves of the refresh token it found. -/
structure LockedDecision.Keeps (account : AccountTokens) (d : LockedDecision) : Prop where
  answer : ∀ result account', d = .answer result account' → account'.refreshTokenEnc =
    account.refreshTokenEnc ∧ (account'.status = .active → account.status = .active)
  exchange : ∀ t held account', d = .exchange t held account' → account.status = .active ∧
    account.refreshTokenEnc = some t ∧ account'.refreshTokenEnc = some t ∧
    held.refreshTokenHash = account.refreshTokenHash

theorem keeps_answer {result : AccessTokenResult} {account' : AccountTokens}
    (henc : account'.refreshTokenEnc = account.refreshTokenEnc)
    (hactive : account'.status = .active → account.status = .active) :
    (LockedDecision.answer result account').Keeps account := by
  refine ⟨?_, by simp⟩
  intro result' account'' heq
  obtain ⟨rfl, rfl⟩ := LockedDecision.answer.inj heq
  exact ⟨henc, hactive⟩

theorem keeps_revoked {account' : AccountTokens} {reason : AuthRevokedReason}
    (henc : account'.refreshTokenEnc = account.refreshTokenEnc) :
    (revoked account' reason).Keeps account :=
  keeps_answer henc (by simp [revokeAccount])

theorem decideExchange_keeps {account' : AccountTokens} {t : Token} (hactive : account.status = .active)
    (ht : account.refreshTokenEnc = some t) (ht' : account'.refreshTokenEnc = some t)
    (hhash : account'.refreshTokenHash = account.refreshTokenHash) :
    (decideExchange options now t account').Keeps account := by
  unfold decideExchange
  split
  · exact keeps_answer (ht'.trans ht.symm) (fun _ => hactive)
  split
  · exact keeps_revoked (ht'.trans ht.symm)
  · refine ⟨by simp, ?_⟩
    intro t' held account'' heq
    obtain ⟨rfl, rfl, rfl⟩ := LockedDecision.exchange.inj heq
    exact ⟨hactive, ht, ht', hhash⟩

theorem decideLocked_keeps :
    (decideLocked hashToken keyId options now dbNow userBlocked account).Keeps account := by
  unfold decideLocked
  split
  · exact keeps_answer rfl id
  split
  · exact keeps_answer rfl id
  split
  · exact keeps_answer rfl id
  rename_i hactive
  have hactive : account.status = .active := not_not.mp hactive
  split
  · exact keeps_answer rfl id
  split
  · exact keeps_answer rfl id
  split
  · exact keeps_revoked rfl
  rename_i t ht
  split
  · exact keeps_revoked rfl
  split
  · split
    · exact keeps_revoked rfl
    · split
      · exact decideExchange_keeps hactive ht ht rfl
      · refine keeps_answer ?_ (fun _ => hactive)
        unfold backfillRefreshTokenHash
        split <;> rfl
  · exact decideExchange_keeps hactive ht ht rfl

end Decisions

/-! ## The moment between the two transactions -/

namespace TokenWorld

variable (hashToken : Token → TokenHash) (w : TokenWorld)

/-- The second transaction of a lost pair has still to run, and would revoke the account. -/
def Lost : Prop :=
  ∃ c held account, w.phase c = .abandoning held ∧ w.row = some account ∧ account.status = .active ∧
    account.refreshTokenHash = held.refreshTokenHash

/-- No caller granted the row in that moment uses its refresh token. -/
def Waits (w : TokenWorld) : TokenAction → Prop
  | .grant c now dbNow =>
    w.phase c = .locking → w.lock = none → w.Lost → ∀ account, w.row = some account →
      ¬ (decideLocked hashToken (w.keyId (w.callers c).process) (w.callers c).options now dbNow
        w.userBlocked account).uses account
  | _ => True

/-- No call has begun. -/
structure Fresh : Prop where
  idle : ∀ c, w.phase c = .idle
  log : w.log = []
  issued : ∀ account t, w.row = some account → account.refreshTokenEnc = some t → t < w.issued

end TokenWorld

/-- The row as a transaction leaves it: a spent token in it has its second transaction to come. -/
def TokenWorld.RowOk (w : TokenWorld) (row : Option AccountTokens) : Prop :=
  ∀ account t, row = some account → account.refreshTokenEnc = some t → t < w.issued ∧
    (account.status = .active → Spent w.log t →
      ∃ c held, w.phase c = .abandoning held ∧ account.refreshTokenHash = held.refreshTokenHash)

structure TokenInv (w : TokenWorld) : Prop where
  noReplay : NoReplay w.log
  spent_lt : ∀ t, Spent w.log t → t < w.issued
  /-- nobody holds the row -/
  free : w.lock = none → w.RowOk w.row
  /-- the broker is being asked -/
  exchanging : ∀ c t held account, w.phase c = .exchanging t held account → w.lock = some c ∧
    account.refreshTokenEnc = some t ∧ ¬ Spent w.log t ∧
    ∃ row, w.row = some row ∧ row.refreshTokenEnc = some t ∧ t < w.issued ∧
      row.refreshTokenHash = held.refreshTokenHash
  committing : ∀ c result row exchanged, w.phase c = .committing result row exchanged →
    w.lock = some c ∧ w.RowOk row ∧
    match exchanged with
    | none => w.RowOk w.row
    | some held => ∃ account t, w.row = some account ∧ account.refreshTokenEnc = some t ∧
        t < w.issued ∧ account.refreshTokenHash = held.refreshTokenHash

/-! ## The steps -/

section Steps

variable {hashToken : Token → TokenHash} {w w' : TokenWorld} {c : CallerId}

theorem phase_setPhase (w : TokenWorld) (c c' : CallerId) (phase : CallerPhase) :
    (w.setPhase c phase).phase c' = if c' = c then phase else w.phase c' := by
  by_cases h : c' = c
  · subst h
    simp [TokenWorld.setPhase, TokenWorld.phase]
  · simp [TokenWorld.setPhase, TokenWorld.phase, h]

/-- A phase in which a caller has no transaction on the row and owes none. -/
def CallerPhase.Quiet : CallerPhase → Prop
  | .exchanging _ _ _ => False
  | .committing _ _ _ => False
  | .abandoning _ => False
  | _ => True

theorem TokenWorld.RowOk.of_le {row : Option AccountTokens} (h : w.RowOk row)
    (hissued : w.issued ≤ w'.issued) (hspent : ∀ t, t < w.issued → Spent w'.log t → Spent w.log t)
    (habandoning : ∀ c held, w.phase c = .abandoning held → w'.phase c = .abandoning held) :
    w'.RowOk row := by
  intro account t hrow henc
  obtain ⟨hlt, hguard⟩ := h account t hrow henc
  refine ⟨hlt.trans_le hissued, fun hactive hsp => ?_⟩
  obtain ⟨c, held, hc, hhash⟩ := hguard hactive (hspent t hlt hsp)
  exact ⟨c, held, habandoning c held hc, hhash⟩

/-- Callers that have nothing to do with the row move on. -/
theorem TokenInv.quiet (h : TokenInv w) (hrow : w'.row = w.row) (hlock : w'.lock = w.lock)
    (hlog : w'.log = w.log) (hissued : w'.issued = w.issued)
    (hphase : ∀ c, w'.phase c = w.phase c ∨ ((w.phase c).Quiet ∧ (w'.phase c).Quiet)) : TokenInv w' := by
  have hsame : ∀ c, ¬ (w'.phase c).Quiet → w'.phase c = w.phase c := by
    intro c hloud
    rcases hphase c with heq | ⟨-, hquiet⟩
    · exact heq
    · exact absurd hquiet hloud
  have habandoning : ∀ c held, w.phase c = .abandoning held → w'.phase c = .abandoning held := by
    intro c held hc
    rcases hphase c with heq | ⟨hquiet, -⟩
    · rw [heq, hc]
    · rw [hc] at hquiet
      exact hquiet.elim
  have hok : ∀ row, w.RowOk row → w'.RowOk row := fun row hr =>
    hr.of_le hissued.ge (fun t _ hsp => by rwa [hlog] at hsp) habandoning
  refine ⟨by rw [hlog]; exact h.noReplay, by rw [hlog, hissued]; exact h.spent_lt, ?_, ?_, ?_⟩
  · rw [hlock, hrow]
    exact fun hfree => hok _ (h.free hfree)
  · intro c t held account hc
    have hold := hsame c (by rw [hc]; exact id)
    rw [hlock, hlog, hrow, hissued]
    exact h.exchanging c t held account (hold ▸ hc)
  · intro c result row exchanged hc
    have hold := hsame c (by rw [hc]; exact id)
    obtain ⟨hl, hr, hx⟩ := h.committing c result row exchanged (hold ▸ hc)
    rw [hlock, hrow, hissued]
    refine ⟨hl, hok _ hr, ?_⟩
    cases exchanged with
    | none => exact hok _ hx
    | some held => exact hx

/-- One caller moves between two phases of no concern to the row. -/
theorem TokenInv.setPhase (h : TokenInv w) {phase : CallerPhase} (hold : (w.phase c).Quiet)
    (hnew : phase.Quiet) : TokenInv (w.setPhase c phase) := by
  refine h.quiet rfl rfl rfl rfl (fun c' => ?_)
  rw [phase_setPhase]
  by_cases hc : c' = c
  · subst hc
    rw [if_pos rfl]
    exact .inr ⟨hold, hnew⟩
  · rw [if_neg hc]
    exact .inl rfl

/-- The state with no transaction on the row: what is left to show of it. -/
theorem TokenInv.unlocked (hnoReplay : NoReplay w'.log)
    (hspent : ∀ t, Spent w'.log t → t < w'.issued) (hrow : w'.RowOk w'.row)
    (hquiet : ∀ c, (w'.phase c).Quiet ∨ ∃ held, w'.phase c = .abandoning held) : TokenInv w' := by
  refine ⟨hnoReplay, hspent, fun _ => hrow, ?_, ?_⟩
  · intro c t held account hc
    rcases hquiet c with hq | ⟨_, hq⟩
    · rw [hc] at hq
      exact hq.elim
    · rw [hc] at hq
      simp at hq
  · intro c result row exchanged hc
    rcases hquiet c with hq | ⟨_, hq⟩
    · rw [hc] at hq
      exact hq.elim
    · rw [hc] at hq
      simp at hq

/-- The state in which `c` holds the row. -/
theorem TokenInv.locked (hlock : w'.lock = some c) (hnoReplay : NoReplay w'.log)
    (hspent : ∀ t, Spent w'.log t → t < w'.issued)
    (hothers : ∀ c' ≠ c, (w'.phase c').Quiet ∨ ∃ held, w'.phase c' = .abandoning held)
    (hexchanging : ∀ t held account, w'.phase c = .exchanging t held account →
      account.refreshTokenEnc = some t ∧ ¬ Spent w'.log t ∧
      ∃ row, w'.row = some row ∧ row.refreshTokenEnc = some t ∧ t < w'.issued ∧
        row.refreshTokenHash = held.refreshTokenHash)
    (hcommitting : ∀ result row exchanged, w'.phase c = .committing result row exchanged →
      w'.RowOk row ∧ match exchanged with
        | none => w'.RowOk w'.row
        | some held => ∃ account t, w'.row = some account ∧ account.refreshTokenEnc = some t ∧
            t < w'.issued ∧ account.refreshTokenHash = held.refreshTokenHash) : TokenInv w' := by
  refine ⟨hnoReplay, hspent, by simp [hlock], ?_, ?_⟩
  · intro c' t held account hc'
    by_cases hc : c' = c
    · subst hc
      exact ⟨hlock, hexchanging t held account hc'⟩
    · rcases hothers c' hc with hq | ⟨_, hq⟩
      · rw [hc'] at hq
        exact hq.elim
      · rw [hc'] at hq
        simp at hq
  · intro c' result row exchanged hc'
    by_cases hc : c' = c
    · subst hc
      exact ⟨hlock, hcommitting result row exchanged hc'⟩
    · rcases hothers c' hc with hq | ⟨_, hq⟩
      · rw [hc'] at hq
        exact hq.elim
      · rw [hc'] at hq
        simp at hq

/-- A caller that does not hold the row is quiet, or owes a second transaction. -/
theorem TokenInv.others (h : TokenInv w) {c' : CallerId} (hne : w.lock ≠ some c') :
    (w.phase c').Quiet ∨ ∃ held, w.phase c' = .abandoning held := by
  cases hc : w.phase c' with
  | exchanging t held account => exact absurd (h.exchanging c' t held account hc).1 hne
  | committing result row exchanged => exact absurd (h.committing c' result row exchanged hc).1 hne
  | abandoning held => exact .inr ⟨held, rfl⟩
  | idle | entering | awaiting | reading | hasRead | locking | done => exact .inl trivial

/-- Phases that a step of `c` leaves. -/
theorem abandoning_of_ne {phase : CallerPhase} (hquiet : ∀ held, w.phase c ≠ .abandoning held) {c' : CallerId}
    {held : ExchangedPair} (h : w.phase c' = .abandoning held) :
    (w.setPhase c phase).phase c' = .abandoning held := by
  rw [phase_setPhase, if_neg]
  · exact h
  · rintro rfl
    exact hquiet held h

/-- **The row is granted.** -/
theorem TokenInv.grant (h : TokenInv w) {now dbNow : UnixMs}
    (hwaits : w.Waits hashToken (.grant c now dbNow)) : TokenInv (w.grant hashToken c now dbNow) := by
  unfold TokenWorld.grant
  split
  · rename_i hphase hlock
    have hfree := h.free hlock
    have hothers : ∀ (phase : CallerPhase), ∀ c' ≠ c, ((w.setPhase c phase).phase c').Quiet ∨
        ∃ held, (w.setPhase c phase).phase c' = .abandoning held := by
      intro phase c' hc
      rw [phase_setPhase, if_neg hc]
      exact h.others (by simp [hlock])
    have hkept : ∀ phase c' held, w.phase c' = .abandoning held →
        (w.setPhase c phase).phase c' = .abandoning held :=
      fun phase c' held hc' => abandoning_of_ne (by simp [hphase]) hc'
    split
    · refine TokenInv.locked rfl h.noReplay h.spent_lt (hothers _) ?_ ?_
      · intro t held account hc
        have hbad := (phase_setPhase w c c _).symm.trans hc
        simp at hbad
      · intro result row exchanged hc
        have heq := (phase_setPhase w c c _).symm.trans hc
        rw [if_pos rfl] at heq
        obtain ⟨rfl, rfl, rfl⟩ := CallerPhase.committing.inj heq
        refine ⟨fun account t hrow => by simp at hrow, ?_⟩
        exact hfree.of_le le_rfl (fun _ _ hsp => hsp) (hkept _)
    · rename_i account hrow
      have hkeeps : (decideLocked hashToken (w.keyId (w.callers c).process) (w.callers c).options now
        dbNow w.userBlocked account).Keeps account := decideLocked_keeps
      have hwaits := fun hlost => hwaits hphase hlock hlost account hrow
      split
      · rename_i result account' hd
        rw [hd] at hkeeps hwaits
        obtain ⟨henc, hactive⟩ := hkeeps.answer result account' rfl
        refine TokenInv.locked rfl h.noReplay h.spent_lt (hothers _) ?_ ?_
        · intro t held account hc
          have hbad := (phase_setPhase w c c _).symm.trans hc
          simp at hbad
        · intro result' row exchanged hc
          have heq := (phase_setPhase w c c _).symm.trans hc
          rw [if_pos rfl] at heq
          obtain ⟨rfl, rfl, rfl⟩ := CallerPhase.committing.inj heq
          refine ⟨?_, hfree.of_le le_rfl (fun _ _ hsp => hsp) (hkept _)⟩
          -- a spent token goes with the hash of the pair that was lost
          intro account'' t hrow'' ht
          obtain rfl := Option.some.inj hrow''
          obtain ⟨hlt, hguard⟩ := hfree account t hrow (henc ▸ ht)
          refine ⟨hlt, fun hactive' hsp => ?_⟩
          obtain ⟨c', held, hc', hhash⟩ := hguard (hactive hactive') hsp
          have hunused := hwaits ⟨c', held, account, hc', hrow, hactive hactive', hhash⟩
          exact ⟨c', held, hkept _ c' held hc', (not_not.mp hunused).trans hhash⟩
      · rename_i t held account' hd
        rw [hd] at hkeeps hwaits
        obtain ⟨hactive, ht, ht', hhash⟩ := hkeeps.exchange t held account' rfl
        obtain ⟨hlt, hguard⟩ := hfree account t hrow ht
        have hunspent : ¬ Spent w.log t := by
          intro hsp
          obtain ⟨c', held', hc', hhash'⟩ := hguard hactive hsp
          exact hwaits ⟨c', held', account, hc', hrow, hactive, hhash'⟩ trivial
        refine TokenInv.locked rfl ⟨hunspent, h.noReplay⟩ ?_ (hothers _) ?_ ?_
        · intro t' hsp
          exact h.spent_lt t' (spent_presented.mp hsp)
        · intro t' held' account'' hc
          have heq := (phase_setPhase w c c _).symm.trans hc
          rw [if_pos rfl] at heq
          obtain ⟨rfl, rfl, rfl⟩ := CallerPhase.exchanging.inj heq
          exact ⟨ht', fun hsp => hunspent (spent_presented.mp hsp), account, hrow, ht, hlt, hhash.symm⟩
        · intro result row exchanged hc
          have hbad := (phase_setPhase w c c _).symm.trans hc
          simp at hbad
  · exact h

/-- What the transaction commits after its exchange: no spent token that is active. -/
theorem afterExchange_ok {held : ExchangedPair} {account : AccountTokens} {t : Token}
    {userBlocked : Bool} {dbNow : UnixMs} {keyId issued : ℕ} {answer : RefreshAnswer}
    {log : List RefreshEvent} (ht : account.refreshTokenEnc = some t) (hlt : t < issued)
    (hunspent : ¬ Spent log t) (hspent : ∀ t, Spent log t → t < issued) :
    ∀ t', (afterExchange hashToken keyId dbNow userBlocked issued held account answer).2.1.refreshTokenEnc =
      some t' → t' < issued + 1 ∧
      ((afterExchange hashToken keyId dbNow userBlocked issued held account answer).2.1.status = .active →
        ¬ Spent (.answered t answer :: log) t') := by
  intro t' ht'
  cases answer with
  | rotated accessToken expiresInMs =>
    obtain rfl := Option.some.inj ht'
    refine ⟨Nat.lt_succ_self _, fun _ hsp => ?_⟩
    rcases spent_answered.mp hsp with ⟨heq, -⟩ | hold
    · exact lt_irrefl _ (heq ▸ hlt)
    · exact lt_irrefl _ (hspent _ hold)
  | rateLimited =>
    obtain rfl := Option.some.inj (ht.symm.trans ht')
    refine ⟨hlt.trans (Nat.lt_succ_self _), fun _ hsp => ?_⟩
    rcases spent_answered.mp hsp with ⟨-, hbad⟩ | hold
    · simp [RefreshAnswer.maySpend] at hbad
    · exact hunspent hold
  | invalidGrant | unknown =>
    obtain rfl := Option.some.inj (ht.symm.trans ht')
    exact ⟨hlt.trans (Nat.lt_succ_self _), fun hbad => by simp [afterExchange, revokeAccount] at hbad⟩

/-- The pair is held on to exactly when it may be spent. -/
theorem afterExchange_exchanged {held : ExchangedPair} {account : AccountTokens} {userBlocked : Bool}
    {dbNow : UnixMs} {keyId issued : ℕ} {answer : RefreshAnswer} :
    (afterExchange hashToken keyId dbNow userBlocked issued held account answer).2.2 =
      if answer.maySpend then some held else none := by
  cases answer <;> rfl

/-- **The broker answers.** -/
theorem TokenInv.answer (h : TokenInv w) (answer : RefreshAnswer) (dbNow : UnixMs) :
    TokenInv (w.answer hashToken c answer dbNow) := by
  unfold TokenWorld.answer
  split
  · rename_i t held account hphase
    obtain ⟨hlock, ht, hunspent, row, hrow, hrowT, hlt, hhash⟩ := h.exchanging c t held account hphase
    have hthem : ∀ t', (afterExchange hashToken (w.keyId (w.callers c).process) dbNow w.userBlocked
        w.issued held account answer).2.1.refreshTokenEnc = some t' → t' < w.issued + 1 ∧ _ :=
      afterExchange_ok ht hlt hunspent h.spent_lt
    have hspent : ∀ t', Spent (.answered t answer :: w.log) t' → t' < w.issued + 1 := by
      intro t' hsp
      rcases spent_answered.mp hsp with ⟨rfl, -⟩ | hold
      · exact hlt.trans (Nat.lt_succ_self _)
      · exact (h.spent_lt t' hold).trans (Nat.lt_succ_self _)
    refine TokenInv.locked hlock h.noReplay hspent ?_ ?_ ?_
    · intro c' hc
      show ((w.setPhase c _).phase c').Quiet ∨ ∃ held, (w.setPhase c _).phase c' = .abandoning held
      rw [phase_setPhase, if_neg hc]
      exact h.others (fun hl => hc (Option.some.inj (hl.symm.trans hlock)))
    · intro t' held' account' hc
      have hbad := (phase_setPhase w c c _).symm.trans hc
      simp at hbad
    · intro result row' exchanged hc
      have heq := (phase_setPhase w c c _).symm.trans hc
      rw [if_pos rfl] at heq
      obtain ⟨-, hrow', hexchanged⟩ := CallerPhase.committing.inj heq
      rw [afterExchange_exchanged] at hexchanged
      refine ⟨?_, ?_⟩
      · intro account' t' haccount' ht'
        obtain rfl := Option.some.inj (hrow'.trans haccount')
        obtain ⟨hlt', hactive⟩ := hthem t' ht'
        exact ⟨hlt', fun hact hsp => absurd hsp (hactive hact)⟩
      · cases hspend : answer.maySpend with
        | true =>
          rw [hspend] at hexchanged
          subst hexchanged
          exact ⟨row, t, hrow, hrowT, hlt.trans (Nat.lt_succ_self _), hhash⟩
        | false =>
          rw [hspend] at hexchanged
          subst hexchanged
          intro account' t' haccount' ht'
          obtain rfl := Option.some.inj (hrow.symm.trans haccount')
          obtain rfl := Option.some.inj (hrowT.symm.trans ht')
          refine ⟨hlt.trans (Nat.lt_succ_self _), fun _ hsp => ?_⟩
          rcases spent_answered.mp hsp with ⟨-, hbad⟩ | hold
          · rw [hspend] at hbad
            simp at hbad
          · exact absurd hold hunspent
  · exact h

/-! ### The ends of a transaction -/

/-- A caller that gives up the row, with what it leaves there. -/
theorem TokenInv.leave (h : TokenInv w) (hlock : w.lock = some c ∨ w.lock = none)
    (hphase : ∀ c', w'.phase c' = if c' = c then w'.phase c else w.phase c')
    (hnew : (w'.phase c).Quiet ∨ ∃ held, w'.phase c = .abandoning held)
    (hlog : w'.log = w.log) (hissued : w'.issued = w.issued) (hrow : w'.RowOk w'.row) : TokenInv w' := by
  refine TokenInv.unlocked (by rw [hlog]; exact h.noReplay) (by rw [hlog, hissued]; exact h.spent_lt) hrow ?_
  intro c'
  by_cases hc : c' = c
  · rw [hc]
    exact hnew
  · rw [hphase c', if_neg hc]
    refine h.others (fun hl => ?_)
    rcases hlock with hlock | hlock
    · exact hc (Option.some.inj (hl.symm.trans hlock))
    · rw [hlock] at hl
      simp at hl

/-- A row that waits for no second transaction of `c`'s waits for what it did. -/
theorem TokenWorld.RowOk.leave {row : Option AccountTokens} (h : w.RowOk row)
    (hold : ∀ held, w.phase c ≠ .abandoning held)
    (hphase : ∀ c', w'.phase c' = if c' = c then w'.phase c else w.phase c') (hlog : w'.log = w.log)
    (hissued : w'.issued = w.issued) : w'.RowOk row := by
  refine h.of_le hissued.ge (fun t _ hsp => by rwa [hlog] at hsp) ?_
  intro c' held hc'
  rw [hphase c', if_neg]
  · exact hc'
  · rintro rfl
    exact hold held hc'

theorem phase_land (w : TokenWorld) (c c' : CallerId) (result : Option AccessTokenResult) :
    (w.land c result).phase c' = if c' = c then .done result else w.phase c' :=
  phase_setPhase w c c' _

theorem phase_land_eq (w : TokenWorld) (c c' : CallerId) (result : Option AccessTokenResult) :
    (w.land c result).phase c' = if c' = c then (w.land c result).phase c else w.phase c' := by
  rw [phase_land, phase_land, if_pos rfl]

theorem phase_setPhase_eq (w : TokenWorld) (c c' : CallerId) (phase : CallerPhase) :
    (w.setPhase c phase).phase c' = if c' = c then (w.setPhase c phase).phase c else w.phase c' := by
  rw [phase_setPhase, phase_setPhase, if_pos rfl]

theorem TokenInv.commit (h : TokenInv w) : TokenInv (w.act hashToken (.commit c)) := by
  simp only [TokenWorld.act]
  split
  · rename_i result row exchanged hphase
    obtain ⟨hlock, hrow, -⟩ := h.committing c result row exchanged hphase
    refine h.leave (.inl hlock) (phase_land_eq w c · _) (.inl ?_) rfl rfl ?_
    · show ((w.land c _).phase c).Quiet
      rw [phase_land, if_pos rfl]
      trivial
    · exact hrow.leave (by simp [hphase]) (phase_land_eq w c · _) rfl rfl
  · exact h

theorem land_quiet (w : TokenWorld) (c : CallerId) (result : Option AccessTokenResult) :
    ((w.land c result).phase c).Quiet := by
  rw [phase_land, if_pos rfl]
  trivial

/-- **The transaction rolls back**: a pair it exchanged is in the row, with its second transaction to
come. -/
theorem TokenInv.fail (h : TokenInv w) : TokenInv (w.act hashToken (.fail c)) := by
  simp only [TokenWorld.act]
  split
  · rename_i hphase
    refine h.quiet rfl rfl rfl rfl (fun c' => ?_)
    rw [phase_land]
    by_cases hc : c' = c
    · subst hc
      rw [if_pos rfl, hphase]
      exact .inr ⟨trivial, trivial⟩
    · rw [if_neg hc]
      exact .inl rfl
  · rename_i result row hphase
    obtain ⟨hlock, -, hrow⟩ := h.committing c result row none hphase
    exact h.leave (.inl hlock) (phase_land_eq w c · _) (.inl (land_quiet w c _)) rfl rfl
      (hrow.leave (by simp [hphase]) (phase_land_eq w c · _) rfl rfl)
  · rename_i result row held hphase
    obtain ⟨hlock, -, account, t, hrow, ht, hlt, hhash⟩ := h.committing c result row (some held) hphase
    have hnew : (w.setPhase c (.abandoning held)).phase c = .abandoning held := by
      rw [phase_setPhase, if_pos rfl]
    refine h.leave (.inl hlock) (phase_setPhase_eq w c · _) (.inr ⟨held, hnew⟩) rfl rfl ?_
    intro account' t' hrow' ht'
    obtain rfl := Option.some.inj (hrow.symm.trans hrow')
    obtain rfl := Option.some.inj (ht.symm.trans ht')
    exact ⟨hlt, fun _ _ => ⟨c, held, hnew, hhash⟩⟩
  · exact h

theorem TokenInv.commitUnknown (h : TokenInv w) : TokenInv (w.act hashToken (.commitUnknown c)) := by
  simp only [TokenWorld.act]
  split
  · rename_i result row hphase
    obtain ⟨hlock, hrow, -⟩ := h.committing c result row none hphase
    exact h.leave (.inl hlock) (phase_land_eq w c · _) (.inl (land_quiet w c _)) rfl rfl
      (hrow.leave (by simp [hphase]) (phase_land_eq w c · _) rfl rfl)
  · rename_i result row held hphase
    obtain ⟨hlock, hrow, -⟩ := h.committing c result row (some held) hphase
    have hnew : (w.setPhase c (.abandoning held)).phase c = .abandoning held := by
      rw [phase_setPhase, if_pos rfl]
    exact h.leave (.inl hlock) (phase_setPhase_eq w c · _) (.inr ⟨held, hnew⟩) rfl rfl
      (hrow.leave (by simp [hphase]) (phase_setPhase_eq w c · _) rfl rfl)
  · exact h

/-- What the second transaction leaves: a revoked account, or a row that is no longer the lost pair's. -/
theorem revokeAccountIfUnchanged_row {row : Option AccountTokens} {held : ExchangedPair}
    {reason : AuthRevokedReason} {account : AccountTokens}
    (h : (revokeAccountIfUnchanged row held reason).2 = some account) :
    ∃ old, row = some old ∧ account.refreshTokenEnc = old.refreshTokenEnc ∧
      (account.status = .active → account = old ∧ old.refreshTokenHash ≠ held.refreshTokenHash) := by
  unfold revokeAccountIfUnchanged at h
  split at h
  · simp at h
  rename_i old
  split at h
  · obtain rfl := Option.some.inj h
    exact ⟨old, rfl, rfl, fun hbad => by simp [revokeAccount] at hbad⟩
  rename_i hchanged
  have hsame : account = old := by
    split at h
    · exact (Option.some.inj h).symm
    · exact (Option.some.inj h).symm
  subst hsame
  exact ⟨account, rfl, rfl, fun hactive => ⟨rfl, fun hhash => hchanged ⟨hactive, hhash⟩⟩⟩

/-- **The second transaction.** -/
theorem TokenInv.abandon (h : TokenInv w) : TokenInv (w.act hashToken (.abandon c)) := by
  simp only [TokenWorld.act]
  split
  · rename_i held hphase hlock
    refine h.leave (.inr hlock) (phase_land_eq w c · _) (.inl (land_quiet w c _)) rfl rfl ?_
    intro account t hrow ht
    obtain ⟨old, hold, henc, hactive⟩ := revokeAccountIfUnchanged_row hrow
    obtain ⟨hlt, hguard⟩ := h.free hlock old t hold (henc ▸ ht)
    refine ⟨hlt, fun hact hsp => ?_⟩
    obtain ⟨rfl, hchanged⟩ := hactive hact
    obtain ⟨c', held', hc', hhash⟩ := hguard hact hsp
    refine ⟨c', held', ?_, hhash⟩
    show (w.land c _).phase c' = _
    rw [phase_land, if_neg]
    · exact hc'
    · rintro rfl
      obtain rfl := CallerPhase.abandoning.inj (hphase.symm.trans hc')
      exact hchanged hhash
  · exact h

/-- A new login brings a token that nobody has presented. -/
theorem TokenInv.relink (h : TokenInv w) {accessToken : Token} {keyId : ℕ} {dbNow : UnixMs}
    {expiresInMs : ℤ} : TokenInv (w.act hashToken (.relink accessToken keyId dbNow expiresInMs)) := by
  simp only [TokenWorld.act]
  split
  · rename_i account hrow hlock
    refine TokenInv.unlocked h.noReplay (fun t hsp => (h.spent_lt t hsp).trans (Nat.lt_succ_self _)) ?_
      (fun c' => h.others (by simp [hlock]))
    intro account' t hrow' ht
    obtain rfl := Option.some.inj hrow'
    obtain rfl := Option.some.inj ht
    exact ⟨Nat.lt_succ_self _, fun _ hsp => absurd (h.spent_lt _ hsp) (lt_irrefl _)⟩
  · exact h

/-- A call enters, waits or reads. -/
theorem TokenInv.quietly (h : TokenInv w) {action : TokenAction} (hrow : (w.act hashToken action).row = w.row)
    (hlock : (w.act hashToken action).lock = w.lock) (hlog : (w.act hashToken action).log = w.log)
    (hissued : (w.act hashToken action).issued = w.issued)
    (hphase : ∀ c', (w.act hashToken action).phase c' = w.phase c' ∨
      ((w.phase c').Quiet ∧ ((w.act hashToken action).phase c').Quiet)) :
    TokenInv (w.act hashToken action) :=
  h.quiet hrow hlock hlog hissued hphase

/-- **One step of a run that waits.** -/
theorem TokenInv.act (h : TokenInv w) (action : TokenAction) (hwaits : w.Waits hashToken action) :
    TokenInv (w.act hashToken action) := by
  cases action with
  | call c process options =>
    simp only [TokenWorld.act]
    split
    · rename_i hphase
      refine h.quiet rfl rfl rfl rfl (fun c' => ?_)
      by_cases hc : c' = c
      · subst hc
        refine .inr ⟨by rw [hphase]; trivial, ?_⟩
        simp [TokenWorld.phase, CallerPhase.Quiet]
      · refine .inl ?_
        simp [TokenWorld.phase, Function.update_of_ne hc]
    · exact h
  | enter c =>
    simp only [TokenWorld.act]
    split
    · rename_i hphase
      split
      · exact h.setPhase (by rw [hphase]; trivial) trivial
      · exact h.setPhase (by rw [hphase]; trivial) trivial
    · exact h
  | resume c =>
    simp only [TokenWorld.act]
    split
    · rename_i hphase
      split
      · exact h
      · exact h.setPhase (by rw [hphase]; trivial) trivial
    · exact h
  | read c now =>
    simp only [TokenWorld.act]
    split
    · rename_i hphase
      exact h.setPhase (by rw [hphase]; trivial) trivial
    · exact h
  | check c =>
    simp only [TokenWorld.act]
    split
    · rename_i hphase
      split
      · exact h.setPhase (by rw [hphase]; trivial) trivial
      · exact h.setPhase (by rw [hphase]; trivial) trivial
      · have hset : TokenInv (w.setPhase c .locking) := h.setPhase (by rw [hphase]; trivial) trivial
        exact hset.quiet rfl rfl rfl rfl (fun _ => .inl rfl)
    · exact h
  | grant c now dbNow => exact h.grant hwaits
  | answer c answer dbNow => exact h.answer answer dbNow
  | commit c => exact h.commit
  | fail c => exact h.fail
  | commitUnknown c => exact h.commitUnknown
  | abandon c => exact h.abandon
  | setBlocked blocked => exact h.quiet rfl rfl rfl rfl (fun _ => .inl rfl)
  | relink accessToken keyId dbNow expiresInMs => exact h.relink

theorem TokenWorld.Fresh.inv (h : w.Fresh) : TokenInv w := by
  have hunspent : ∀ t, ¬ Spent w.log t := by
    rintro t ⟨answer, hmem, -⟩
    rw [h.log] at hmem
    simp at hmem
  refine TokenInv.unlocked ?_ (fun t hsp => absurd hsp (hunspent t)) ?_ (fun c => ?_)
  · rw [h.log]
    trivial
  · intro account t hrow ht
    exact ⟨h.issued account t hrow ht, fun _ hsp => absurd hsp (hunspent t)⟩
  · rw [h.idle c]
    exact .inl trivial

end Steps

/-- **A refresh token that may have been spent is never presented again**, in every run of any processes and
callers in which no caller uses the row's refresh token between the rollback that lost a pair and the
second transaction that revokes the account. -/
theorem refresh_once (hashToken : Token → TokenHash) (w : TokenWorld) (hw : w.Fresh)
    (actions : List TokenAction)
    (hwaits : RunOk (TokenWorld.act hashToken) (TokenWorld.Waits hashToken) w actions) :
    NoReplay (run (TokenWorld.act hashToken) w actions).log :=
  (hwaits.induction hw.inv (fun _ action hok h => h.act action hok)).noReplay

/-! ### Two processes -/

/-- An account whose access token is over, with the refresh token 1. -/
def dueWorld : TokenWorld where
  row := some
    { brokerUserId := "7", status := .active, authRevokedReason := none, tokenKeyId := 0
      accessTokenEnc := some 0, refreshTokenEnc := some 1, accessTokenExpiresAt := 0, refreshTokenHash := some 1
      tokenRotatedAt := some 0, createdAt := 0, serviceSince := none }
  userBlocked := false
  lock := none
  keyId _ := 0
  flights _ := none
  callers _ := ⟨0, {}, .idle⟩
  issued := 2
  log := []

theorem dueWorld_fresh : dueWorld.Fresh where
  idle _ := rfl
  log := rfl
  issued := by
    intro account t hrow ht
    obtain rfl := Option.some.inj hrow
    obtain rfl := Option.some.inj ht
    decide

/-- A caller of each process waits for the row; the first rotates the pair and fails to commit it. -/
def lostPair : List TokenAction :=
  [.call 0 0 {}, .enter 0, .read 0 1000, .check 0, .call 1 1 {}, .enter 1, .read 1 1000, .check 1,
   .grant 0 1000 1000, .answer 0 (.rotated 5 3600000) 1000, .fail 0]

/-- The second is granted the row before the first revokes the account. -/
theorem refresh_replayed :
    ¬ NoReplay (run (TokenWorld.act id) dueWorld (lostPair ++ [.grant 1 1000 1000])).log := by
  intro h
  refine h.1 ⟨.rotated 5 3600000, ?_, rfl⟩
  decide

theorem refresh_once_lostPair :
    NoReplay (run (TokenWorld.act id) dueWorld (lostPair ++ [.abandon 0, .grant 1 1000 1000])).log := by
  refine refresh_once id dueWorld dueWorld_fresh _ ?_
  refine ⟨trivial, trivial, trivial, trivial, trivial, trivial, trivial, trivial, ?_, trivial, trivial,
    trivial, ?_, trivial⟩
  · -- nobody has lost a pair yet
    rintro - - ⟨c, held, account, hphase, -⟩
    have hfirst : (run (TokenWorld.act id) dueWorld (lostPair.take 8)).phase 0 = .locking := by decide
    have hsecond : (run (TokenWorld.act id) dueWorld (lostPair.take 8)).phase 1 = .locking := by decide
    match c with
    | 0 => exact CallerPhase.noConfusion (hfirst.symm.trans hphase)
    | 1 => exact CallerPhase.noConfusion (hsecond.symm.trans hphase)
    | c + 2 => exact CallerPhase.noConfusion (show CallerPhase.idle = .abandoning held from hphase)
  · -- the account is revoked
    rintro - - ⟨c, held, account, -, hrow, hactive, -⟩
    obtain rfl := Option.some.inj hrow
    exact absurd hactive (by decide)

end Binarius
