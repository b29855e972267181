import Mathlib.Tactic
import Binarius.Lib.Runs
import Binarius.Backend.RefreshOnce

/-!
# Backend.FastPath — the token service's fast read

* `readStoredToken_locked`: **what the fast read answers, the path under the lock answers**, with no write and
  no exchange.
* `Reading`, `ReadFree`: a caller's read, and that it began while no flight of its process ran.
* `fast_path`: both, over every run.
-/

namespace Binarius

open Lib

/-! ## One row -/

theorem backfillRefreshTokenHash_some {account : AccountTokens} {hash hash' : TokenHash}
    (h : account.refreshTokenHash = some hash) : backfillRefreshTokenHash account hash' = account := by
  unfold backfillRefreshTokenHash
  rw [h]
  rfl

/-- **The fast read's answer** is the one under the lock, which leaves the row as it is. -/
theorem readStoredToken_locked {hashToken : Token → TokenHash} {keyId : ℕ} {options : AccessTokenOptions}
    {now : UnixMs} {userBlocked : Bool} {row : Option AccountTokens} {result : AccessTokenResult}
    (hrefused : options.refusedToken = none)
    (hfast : readStoredToken hashToken keyId options now userBlocked row = some result) :
    ∃ account, row = some account ∧
      ∀ dbNow, decideLocked hashToken keyId options now dbNow userBlocked account = .answer result account := by
  cases row with
  | none => cases hfast
  | some account =>
    refine ⟨account, rfl, fun dbNow => ?_⟩
    by_cases hmiss : userBlocked = true ∨ account.status ≠ .active ∨ notService account options = true ∨
        account.tokenKeyId ≠ keyId ∨ account.refreshTokenHash = none
    · rw [readStoredToken, if_pos hmiss] at hfast
      cases hfast
    rw [readStoredToken, if_neg hmiss] at hfast
    obtain ⟨hblocked, hactive, hservice, hkey, hhash⟩ : userBlocked = false ∧ account.status = .active ∧
        notService account options = false ∧ account.tokenKeyId = keyId ∧ account.refreshTokenHash ≠ none := by
      simpa only [not_or, Bool.not_eq_true, ne_eq, not_not] using hmiss
    cases hrefresh : account.refreshTokenEnc with
    | none =>
      rw [hrefresh] at hfast
      cases hfast
    | some refreshToken =>
      rw [hrefresh] at hfast
      dsimp only at hfast
      split_ifs at hfast with hmismatch hdue
      obtain ⟨accessToken, haccess, rfl⟩ := Option.map_eq_some_iff.mp hfast
      have hmatch : account.refreshTokenHash = some (hashToken refreshToken) := not_not.mp hmismatch
      have hkept : account.refreshTokenHash.any (fun hash => hash ≠ hashToken refreshToken) = false := by
        rw [hmatch]
        simp
      rw [decideLocked, hblocked, if_neg Bool.false_ne_true, hactive, if_neg (by decide), if_neg (by simp),
        hservice, if_neg Bool.false_ne_true, if_neg (not_not.mpr hkey), hrefresh]
      dsimp only
      rw [hkept, if_neg Bool.false_ne_true, if_pos (not_le.mp hdue), haccess]
      dsimp only
      rw [hrefused, if_neg (by simp), backfillRefreshTokenHash_some hmatch]

/-! ## The flights -/

/-- The caller's read is on, or has ended without its check. -/
def CallerPhase.Reading : CallerPhase → Prop
  | .reading => True
  | .hasRead _ => True
  | _ => False

/-- The read began while no flight of the caller's process ran, and is the same one since. -/
def ReadFree (hashToken : Token → TokenHash) (w : TokenWorld) (actions : List TokenAction) (c : CallerId) : Prop :=
  ∃ front rest, actions = front ++ .enter c :: rest ∧
    (run (TokenWorld.act hashToken) w front).phase c = .entering ∧
    (run (TokenWorld.act hashToken) w front).flight c = none ∧
    ∀ n, ((run (TokenWorld.act hashToken) w (front ++ .enter c :: rest.take n)).phase c).Reading

/-- What an action does to the reads of a caller. -/
inductive ReadMove (w : TokenWorld) (c : CallerId) : TokenAction → CallerPhase → Prop
  | stays (a : TokenAction) : ReadMove w c a (w.phase c)
  | begins (hphase : w.phase c = .entering) (hflight : w.flight c = none) : ReadMove w c (.enter c) .reading
  | reads (now : UnixMs) (fast : Option AccessTokenResult) (hphase : w.phase c = .reading) :
    ReadMove w c (.read c now) (.hasRead fast)
  | again (fast : Option AccessTokenResult) (phase : CallerPhase) (hphase : w.phase c = .hasRead fast)
    (hnew : ¬ phase.Reading) (hend : ∀ result, phase ≠ .done result) : ReadMove w c (.check c) phase
  | returns (result : AccessTokenResult) (hphase : w.phase c = .hasRead (some result))
    (hflight : w.flight c = none) : ReadMove w c (.check c) (.done (some result))
  | moves (a : TokenAction) (phase : CallerPhase) (hold : ¬ (w.phase c).Reading) (hnew : ¬ phase.Reading) :
    ReadMove w c a phase

section Flights

variable {hashToken : Token → TokenHash} {w : TokenWorld} {c c' : CallerId} {a : TokenAction}

/-- A phase set is one caller's. -/
theorem ReadMove.set {phase : CallerPhase} (h : c = c' → ReadMove w c a phase) :
    ReadMove w c a ((w.setPhase c' phase).phase c) := by
  rw [phase_setPhase]
  split_ifs with hsame
  · exact h hsame
  · exact .stays a

/-- A caller that is not reading moves on to no read. -/
theorem ReadMove.other {phase old : CallerPhase} (hphase : w.phase c' = old) (hold : ¬ old.Reading)
    (hnew : ¬ phase.Reading) : ReadMove w c a ((w.setPhase c' phase).phase c) := by
  refine .set (fun hsame => .moves a phase ?_ hnew)
  rw [hsame, hphase]
  exact hold

/-- **Every action** moves the reads so. -/
theorem act_readMove (a : TokenAction) : ReadMove w c a ((w.act hashToken a).phase c) := by
  cases a with
  | call c' process options =>
    simp only [TokenWorld.act]
    split
    · rename_i hphase
      show ReadMove w c _ (Function.update w.callers c' ⟨process, options, .entering⟩ c).phase
      by_cases hsame : c = c'
      · rw [← hsame, Function.update_self]
        refine .moves _ _ ?_ id
        rw [hsame, hphase]
        exact id
      · rw [Function.update_of_ne hsame]
        exact .stays _
    · exact .stays _
  | enter c' =>
    simp only [TokenWorld.act]
    split
    · rename_i hphase
      split
      · exact .other hphase id id
      · rename_i hflight
        refine .set (fun hsame => ?_)
        subst hsame
        exact .begins hphase hflight
    · exact .stays _
  | resume c' =>
    simp only [TokenWorld.act]
    split
    · rename_i hphase
      split
      · exact .stays _
      · exact .other hphase id id
    · exact .stays _
  | read c' now =>
    simp only [TokenWorld.act]
    split
    · rename_i hphase
      refine .set (fun hsame => ?_)
      subst hsame
      exact .reads now _ hphase
    · exact .stays _
  | check c' =>
    simp only [TokenWorld.act]
    split
    · rename_i fast hphase
      split
      · refine .set (fun hsame => ?_)
        subst hsame
        exact .again _ _ hphase id (fun _ heq => by cases heq)
      · rename_i hflight
        refine .set (fun hsame => ?_)
        subst hsame
        exact .returns _ hphase hflight
      · refine @ReadMove.set w c c' _ .locking (fun hsame => ?_)
        subst hsame
        exact .again _ _ hphase id (fun _ heq => by cases heq)
    · exact .stays _
  | grant c' now dbNow =>
    simp only [TokenWorld.act, TokenWorld.grant]
    split
    · rename_i hphase _
      split
      · exact @ReadMove.other w c c' _ (.committing .accountNotFound none none) _ hphase id id
      · split
        · exact @ReadMove.other w c c' _ (.committing _ _ _) _ hphase id id
        · exact @ReadMove.other w c c' _ (.exchanging _ _ _) _ hphase id id
    · exact .stays _
  | answer c' answer dbNow =>
    simp only [TokenWorld.act, TokenWorld.answer]
    split
    · rename_i hphase
      exact @ReadMove.other w c c' _ (.committing _ _ _) _ hphase id id
    · exact .stays _
  | commit c' =>
    simp only [TokenWorld.act]
    split
    · rename_i hphase
      exact @ReadMove.other w c c' _ (.done _) _ hphase id id
    · exact .stays _
  | fail c' =>
    simp only [TokenWorld.act]
    split
    · rename_i hphase
      exact @ReadMove.other w c c' _ (.done _) _ hphase id id
    · rename_i hphase
      exact @ReadMove.other w c c' _ (.done _) _ hphase id id
    · rename_i hphase
      exact @ReadMove.other w c c' _ (.abandoning _) _ hphase id id
    · exact .stays _
  | commitUnknown c' =>
    simp only [TokenWorld.act]
    split
    · rename_i hphase
      exact @ReadMove.other w c c' _ (.done _) _ hphase id id
    · rename_i hphase
      exact @ReadMove.other w c c' _ (.abandoning _) _ hphase id id
    · exact .stays _
  | abandon c' =>
    simp only [TokenWorld.act]
    split
    · rename_i hphase _
      exact @ReadMove.other w c c' _ (.done _) _ hphase id id
    · exact .stays _
  | setBlocked blocked => exact .stays _
  | relink accessToken keyId dbNow expiresInMs =>
    simp only [TokenWorld.act]
    split
    · exact .stays _
    · exact .stays _

/-- A read goes on. -/
theorem ReadFree.snoc {actions : List TokenAction} (h : ReadFree hashToken w actions c)
    (hreading : ((run (TokenWorld.act hashToken) w (actions ++ [a])).phase c).Reading) :
    ReadFree hashToken w (actions ++ [a]) c := by
  obtain ⟨front, rest, rfl, hphase, hflight, hsince⟩ := h
  refine ⟨front, rest ++ [a], by rw [List.append_assoc, List.cons_append], hphase, hflight, fun n => ?_⟩
  rcases Nat.lt_or_ge rest.length n with hlong | hshort
  · have htake : (rest ++ [a]).take n = rest ++ [a] := by
      refine List.take_of_length_le ?_
      rw [List.length_append, List.length_singleton]
      omega
    rw [htake, ← List.cons_append, ← List.append_assoc]
    exact hreading
  · rw [List.take_append_of_le_length hshort]
    exact hsince n

/-- **Every read** began while no flight ran. -/
theorem reading_free (hidle : ¬ (w.phase c).Reading) (actions : List TokenAction)
    (h : ((run (TokenWorld.act hashToken) w actions).phase c).Reading) : ReadFree hashToken w actions c := by
  induction actions using List.reverseRecOn with
  | nil => exact absurd h hidle
  | append_singleton actions a ih =>
    have hmove : ReadMove (run (TokenWorld.act hashToken) w actions) c a
        ((run (TokenWorld.act hashToken) w (actions ++ [a])).phase c) := by
      rw [run_snoc]
      exact act_readMove a
    by_cases hold : ((run (TokenWorld.act hashToken) w actions).phase c).Reading
    · exact (ih hold).snoc h
    · generalize hphase : (run (TokenWorld.act hashToken) w (actions ++ [a])).phase c = phase at hmove h
      cases hmove with
      | stays => exact absurd h hold
      | begins hentering hflight =>
        refine ⟨actions, [], rfl, hentering, hflight, fun n => ?_⟩
        rw [List.take_nil, hphase]
        trivial
      | reads now fast hreading =>
        rw [hreading] at hold
        exact absurd trivial hold
      | again fast phase hread hnew => exact absurd h hnew
      | returns result hread => exact absurd h id
      | moves _ _ _ hnew => exact absurd h hnew

end Flights

/-- **The fast path agrees with the path under the lock**: on every row, what it answers is the answer under
the lock, with the row as it was and no exchange; and in every run, an answer of a fast read is returned only
when no flight of the caller's process ran at the read's start and none at its end. -/
theorem fast_path (hashToken : Token → TokenHash) :
    (∀ (keyId : ℕ) (options : AccessTokenOptions) (now : UnixMs) (userBlocked : Bool)
      (row : Option AccountTokens) (result : AccessTokenResult), options.refusedToken = none →
        readStoredToken hashToken keyId options now userBlocked row = some result →
          ∃ account, row = some account ∧ ∀ dbNow,
            decideLocked hashToken keyId options now dbNow userBlocked account = .answer result account) ∧
    ∀ (w : TokenWorld) (actions : List TokenAction) (a : TokenAction) (c : CallerId)
      (fast result : Option AccessTokenResult), (∀ c, w.phase c = .idle) →
        (run (TokenWorld.act hashToken) w actions).phase c = .hasRead fast →
        (run (TokenWorld.act hashToken) w (actions ++ [a])).phase c = .done result →
          result = fast ∧ (run (TokenWorld.act hashToken) w actions).flight c = none ∧
            ReadFree hashToken w actions c := by
  refine ⟨fun keyId options now userBlocked row result hrefused hfast => readStoredToken_locked hrefused hfast, ?_⟩
  intro w actions a c fast result hidle hread hdone
  have hnot : ¬ (w.phase c).Reading := by
    rw [hidle c]
    exact id
  have hfree := reading_free hnot actions (by rw [hread]; trivial)
  have hmove : ReadMove (run (TokenWorld.act hashToken) w actions) c a (.done result) := by
    rw [← hdone, run_snoc]
    exact act_readMove a
  generalize hphase : CallerPhase.done result = phase at hmove
  cases hmove with
  | stays => exact CallerPhase.noConfusion (hphase.trans hread)
  | begins => cases hphase
  | reads => cases hphase
  | again _ _ _ _ hend => exact absurd hphase.symm (hend result)
  | returns answer hread' hflight =>
    cases hphase
    cases hread.symm.trans hread'
    exact ⟨rfl, hflight, hfree⟩
  | moves _ _ hold =>
    rw [hread] at hold
    exact absurd trivial hold

/-- An account whose access token 5 has an hour left. -/
def freshAccount : AccountTokens where
  brokerUserId := "7"
  status := .active
  authRevokedReason := none
  tokenKeyId := 0
  accessTokenEnc := some 5
  refreshTokenEnc := some 1
  accessTokenExpiresAt := 3600000
  refreshTokenHash := some 1
  tokenRotatedAt := some 0
  createdAt := 0
  serviceSince := none

def freshWorld : TokenWorld := { dueWorld with row := some freshAccount }

def freshRead : List TokenAction := [.call 0 0 {}, .enter 0, .read 0 1000]

theorem fast_path_fresh :
    (∃ account, some freshAccount = some account ∧ ∀ dbNow,
      decideLocked id 0 {} 1000 dbNow false account = .answer (.ok 5 "7") account) ∧
    some (AccessTokenResult.ok 5 "7") = some (.ok 5 "7") ∧
      (run (TokenWorld.act id) freshWorld freshRead).flight 0 = none ∧ ReadFree id freshWorld freshRead 0 :=
  ⟨(fast_path id).1 0 {} 1000 false (some freshAccount) (.ok 5 "7") rfl (by decide),
    (fast_path id).2 freshWorld freshRead (.check 0) 0 (some (.ok 5 "7")) (some (.ok 5 "7")) (fun _ => rfl)
      (by decide) (by decide)⟩

end Binarius
