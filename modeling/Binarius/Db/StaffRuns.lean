import Mathlib.Tactic
import Binarius.Db.StaffPrograms

/-!
# Db.StaffRuns — logins and closed accounts in every interleaving (packages/db/src: staff-ops.ts,
staff-link-ops.ts)

* `staff_sound`: every staff transaction, whatever the others in flight.
* The runs: `disabled_account_is_shut_out`, `one_way_in_of_a_kind`, `invalidation_leaves_nothing`,
  `way_in_starts_one_session`.
-/

namespace Binarius

open Lib StaffDb

abbrev StaffWorld := StoreWorld StaffDb StaffLock StaffError StaffReply StaffCall

/-- **Every staff transaction**, whatever the others in flight. -/
theorem staff_sound : Protocol.Sound staffProtocol StaffCall.program (fun call _ => StaffPost call) := by
  intro call db hok
  cases call with
  | startLoginChallenge now staffId passwordHash id ttlMs => exact wp_startLoginChallenge hok
  | markChallengePromptSent now id => exact wp_markChallengePromptSent hok
  | confirmChallengeFromTelegram now id telegramUserId codeHash => exact wp_confirmChallenge hok
  | markChallengeCodeSent now id codeHash => exact wp_markChallengeCodeSent hok
  | denyChallengeFromTelegram now id telegramUserId => exact wp_denyChallenge hok
  | failChallengeDelivery now id sent => exact wp_failDelivery hok
  | completeLogin now id codeHash session token ttlMs => exact wp_completeLogin hok
  | issueLoginLink now telegramUserId id token => exact wp_issueLoginLink hok
  | inspectLoginLink now token => exact wp_inspectLoginLink hok
  | completeLinkLogin now token session sessionToken ttlMs => exact wp_completeLinkLogin hok
  | disableStaffAccount now login =>
    exact wp_changeAccount (.disableStaffAccount now login) hok (fun _ => rfl) (fun _ _ => rfl)
      (fun _ hlogin => ⟨hlogin, rfl, rfl⟩) (fun _ hr => hr.2.2) (fun _ _ => rfl)
  | resetStaffPassword now login passwordHash =>
    exact wp_changeAccount (.resetStaffPassword now login passwordHash) hok (fun _ => rfl)
      (fun _ hd => hd) (fun _ hlogin => ⟨hlogin, rfl, rfl⟩) (fun _ hr => hr.2.2) (fun _ _ => rfl)
  | changePassword now idleMs token seen passwordHash =>
    exact wp_runAsStaff hok (fun _ _ _ _ h => wp_applyStaffPasswordChange h)
  | revokeSession now idleMs token id =>
    exact wp_runAsStaff hok (fun _ _ _ _ h => wp_revokeSession (h.mono fun _ _ _ hE => hE.1))
  | logout now idleMs token =>
    exact wp_runAsStaff hok (fun _ _ _ _ h => wp_endSession (h.mono fun _ _ _ hE => hE.1))

section StaffRuns

variable {db : StaffDb}

/-- The store, with no transaction in progress. -/
def staffWorld (db : StaffDb) : StaffWorld := ⟨db, []⟩

def staffAct : StaffWorld → StoreAct StaffCall → StaffWorld := StoreWorld.act StaffCall.program

theorem staffWorld_ok (hok : db.Ok) (acts : List (StoreAct StaffCall)) :
    Protocol.WorldOk staffProtocol (fun call _ => StaffPost call) (Lib.run staffAct (staffWorld db) acts) :=
  staff_sound.run (Protocol.WorldOk.initial hok) acts

theorem staff_kept (hok : db.Ok) (acts later : List (StoreAct StaffCall)) :
    RowsKept (Lib.run staffAct (staffWorld db) acts).db
      (Lib.run staffAct (staffWorld db) (acts ++ later)).db := by
  rw [Lib.run_append]
  exact staff_sound.rely_run (staffWorld_ok hok acts) later

/-- **What a committed answer says of the store before and after it.** -/
theorem staff_post (hok : db.Ok) (acts : List (StoreAct StaffCall)) {act : StoreAct StaffCall}
    {call : StaffCall} {reply : StaffReply}
    (h : (Lib.run staffAct (staffWorld db) acts).committed act = some (call, reply)) :
    StaffPost call (Lib.run staffAct (staffWorld db) acts).db
      (Lib.run staffAct (staffWorld db) (acts ++ [act])).db reply := by
  rcases (staffWorld_ok hok acts).act_cases act with ⟨hnone, -⟩ | ⟨call', answer, began, hsome, -, -, hpost⟩
  · rw [hnone] at h
    cases h
  · rw [hsome] at h
    obtain ⟨rfl, rfl⟩ := Prod.mk.inj (Option.some.inj h)
    rw [Lib.run_append]
    exact hpost

/-- One member, nothing issued. -/
def staffStore : StaffDb where
  staff := ⟨[⟨1, "ann".toList, "hash".toList, 7, .active, 0, none, 0⟩], by decide⟩
  challenges := ⟨[], List.nodup_nil⟩
  links := ⟨[], List.nodup_nil⟩
  sessions := ⟨[], List.nodup_nil⟩

theorem staffStore_ok : staffStore.Ok := by
  have hnone : ∀ staffId w, staffStore.opens staffId w = false := by
    intro staffId w
    cases w <;> rfl
  refine ⟨fun staffId => ⟨fun i j hi => ?_, fun i j hi => ?_⟩, fun staffId r _ _ => ⟨hnone staffId, ?_⟩⟩
  · rw [hnone] at hi
    cases hi
  · rw [hnone] at hi
    cases hi
  · intro i row hrow
    cases hrow

/-- A code is on its way. -/
def entering : List (StoreAct StaffCall) :=
  .start (.startLoginChallenge 10 1 "hash".toList 5 100) :: List.replicate 11 (StoreAct.step 0) ++
    .start (.confirmChallengeFromTelegram 11 5 7 "code".toList) :: List.replicate 6 (StoreAct.step 1) ++
    .start (.markChallengeCodeSent 12 5 "code".toList) :: List.replicate 4 (StoreAct.step 2)

/-- The code is entered, and a link asked for, while the account is disabled: both have read it active. -/
def shutting : List (StoreAct StaffCall) :=
  entering ++ .start (.disableStaffAccount 13 "Ann".toList) :: List.replicate 8 (StoreAct.step 3) ++
    .start (.completeLogin 14 5 "code".toList 9 "token".toList 1000) :: List.replicate 2 (StoreAct.step 4) ++
    .start (.issueLoginLink 14 7 3 "link".toList) :: List.replicate 2 (StoreAct.step 5)

/-- They go on once the disabling has committed. -/
def shutOut : List (StoreAct StaffCall) :=
  List.replicate 4 (StoreAct.step 4) ++ List.replicate 2 (StoreAct.step 5)

/-- **A disabled account stays disabled and nothing of it stands**, at any later moment, whatever logins
were in flight when it was disabled. -/
theorem disabled_account_is_shut_out (hok : db.Ok) (acts later : List (StoreAct StaffCall))
    {staffId : StaffId}
    {r : StaffRow} (hr : (Lib.run staffAct (staffWorld db) acts).db.staff.find? staffId = some r)
    (hdisabled : r.status = .disabled) :
    ∃ r', (Lib.run staffAct (staffWorld db) (acts ++ later)).db.staff.find? staffId = some r' ∧
      r'.status = .disabled ∧
      (Lib.run staffAct (staffWorld db) (acts ++ later)).db.Closed staffId r'.updatedAt := by
  obtain ⟨r', hr', hdisabled'⟩ := (staff_kept hok acts later).disabled staffId r hr hdisabled
  exact ⟨r', hr', hdisabled', (staffWorld_ok hok (acts ++ later)).inv.disabled staffId r' hr' hdisabled'⟩

set_option maxRecDepth 8000 in
/-- The code is refused and no link issued. -/
theorem disabled_account_is_shut_out_entering :
    (∃ r', (Lib.run staffAct (staffWorld staffStore) ((shutting ++ [.step 3]) ++ shutOut)).db.staff.find? 1 =
        some r' ∧ r'.status = .disabled ∧
      (Lib.run staffAct (staffWorld staffStore) ((shutting ++ [.step 3]) ++ shutOut)).db.Closed 1
        r'.updatedAt) ∧
    (StoreWorld.answers StaffCall.program (staffWorld staffStore) ((shutting ++ [.step 3]) ++ shutOut)).map
      Prod.snd =
      [.challenge 5 110 false true, .confirmed 1 false, .marked true, .invalidated 1 0 0,
        .codeRefused .disabled, .staffDisabled 1] :=
  have hrow : (Lib.run staffAct (staffWorld staffStore) (shutting ++ [.step 3])).db.staff.find? 1 =
      some ⟨1, "ann".toList, "hash".toList, 7, .disabled, 0, none, 13⟩ := by rfl
  ⟨disabled_account_is_shut_out staffStore_ok _ shutOut hrow rfl, by rfl⟩

/-- The act commits a start of a login: the challenge that it answers, and whether it was there. -/
def StartAnswered (act : StoreAct StaffCall) (now : ℕ) (staffId : StaffId) (c : ChallengeId) (expiresAt : ℕ)
    (reused : Bool) (w : StaffWorld) : Prop :=
  ∃ passwordHash id ttlMs sendPrompt, w.committed act =
    some (.startLoginChallenge now staffId passwordHash id ttlMs, .challenge c expiresAt reused sendPrompt)

/-- The act commits the issue of a link. -/
def LinkAnswered (act : StoreAct StaffCall) (telegramUserId : ℕ) (l : LinkId) (expiresAt : ℕ)
    (w : StaffWorld) : Prop :=
  ∃ now id token, w.committed act = some (.issueLoginLink now telegramUserId id token, .link l expiresAt)

theorem shared_of_startAnswered (hok : db.Ok) (acts : List (StoreAct StaffCall)) {act : StoreAct StaffCall}
    {now : ℕ} {staffId : StaffId} {c : ChallengeId} {expiresAt : ℕ} {reused : Bool}
    (h : StartAnswered act now staffId c expiresAt reused (Lib.run staffAct (staffWorld db) acts)) :
    SharedChallenge now staffId c expiresAt reused (Lib.run staffAct (staffWorld db) acts).db
      (Lib.run staffAct (staffWorld db) (acts ++ [act])).db := by
  obtain ⟨passwordHash, id, ttlMs, sendPrompt, hcommitted⟩ := h
  obtain ⟨now', x, passwordHash', fresh, ttlMs', hcall, hshared⟩ := staff_post hok acts hcommitted
  cases hcall
  exact hshared

/-- **One way in of each kind**: in every interleaving a member has at most one open challenge and one open
link; two starts of a login share one challenge while it is open and its time is not up; a link that is
issued supersedes the former ones. -/
theorem one_way_in_of_a_kind (hok : db.Ok) (acts : List (StoreAct StaffCall)) (act : StoreAct StaffCall) :
    (Lib.run staffAct (staffWorld db) acts).db.OneOpen ∧
    (∀ now staffId c expiresAt reused,
      StartAnswered act now staffId c expiresAt reused (Lib.run staffAct (staffWorld db) acts) →
      SharedChallenge now staffId c expiresAt reused (Lib.run staffAct (staffWorld db) acts).db
        (Lib.run staffAct (staffWorld db) (acts ++ [act])).db ∧
      ∀ later act' now' c' expiresAt' reused',
        StartAnswered act' now' staffId c' expiresAt' reused'
          (Lib.run staffAct (staffWorld db) ((acts ++ [act]) ++ later)) →
        (Lib.run staffAct (staffWorld db) ((acts ++ [act]) ++ later)).db.opens staffId (.challenge c) = true →
        now' < expiresAt → c' = c ∧ expiresAt' = expiresAt ∧ reused' = true) ∧
    ∀ telegramUserId l expiresAt,
      LinkAnswered act telegramUserId l expiresAt (Lib.run staffAct (staffWorld db) acts) →
      ∃ staffId, SupersedingLink telegramUserId staffId l expiresAt
        (Lib.run staffAct (staffWorld db) acts).db (Lib.run staffAct (staffWorld db) (acts ++ [act])).db := by
  refine ⟨(staffWorld_ok hok acts).inv.one, fun now staffId c expiresAt reused hstart => ?_,
    fun telegramUserId l expiresAt hlink => ?_⟩
  · have hshared := shared_of_startAnswered hok acts hstart
    refine ⟨hshared, fun later act' now' c' expiresAt' reused' hagain hopen hnow => ?_⟩
    -- the challenge of the first start keeps its owner and its time
    obtain ⟨r, hr, hstaff, hexpires⟩ := hshared.row
    obtain ⟨r', hr', hstaff', hexpires', -⟩ := (staff_kept hok (acts ++ [act]) later).challenges c r hr
    have hisOpen : r'.status.isOpen = true := by
      unfold opens at hopen
      simp only [hr', Option.any_some, Bool.and_eq_true] at hopen
      exact hopen.2
    have hshared' := shared_of_startAnswered hok ((acts ++ [act]) ++ later) hagain
    obtain ⟨hsame, hreused⟩ := hshared'.shared c r' hr' (hstaff'.trans hstaff) hisOpen
      (by rw [hexpires', hexpires]; exact hnow)
    subst hsame
    obtain ⟨r₂, hr₂, -, hexpires₂⟩ := hshared'.row
    obtain ⟨r₃, hr₃, -, hexpires₃, -⟩ :=
      (staff_kept hok ((acts ++ [act]) ++ later) [act']).challenges c r' hr'
    rw [hr₂] at hr₃
    obtain rfl := Option.some.inj hr₃
    exact ⟨rfl, hexpires₂.symm.trans (hexpires₃.trans (hexpires'.trans hexpires)), hreused⟩
  · obtain ⟨now, id, token, hcommitted⟩ := hlink
    obtain ⟨now', telegramUserId', token', staffId, hcall, hsuperseding⟩ := staff_post hok acts hcommitted
    cases hcall
    exact ⟨staffId, hsuperseding⟩

/-- A login comes to its commit. -/
def starting : List (StoreAct StaffCall) :=
  .start (.startLoginChallenge 10 1 "hash".toList 5 100) :: List.replicate 10 (StoreAct.step 0)

/-- Another one, from another tab. -/
def startingAgain : List (StoreAct StaffCall) :=
  .start (.startLoginChallenge 20 1 "hash".toList 6 100) :: List.replicate 7 (StoreAct.step 1)

/-- A link is issued, and a second one comes to its commit. -/
def issuing : List (StoreAct StaffCall) :=
  .start (.issueLoginLink 24 7 3 "first".toList) :: List.replicate 8 (StoreAct.step 0) ++
    .start (.issueLoginLink 25 7 4 "second".toList) :: List.replicate 9 (StoreAct.step 1)

set_option maxRecDepth 8000 in
/-- The second start is answered the challenge of the first, and the first link is superseded. -/
theorem one_way_in_of_a_kind_again :
    (∀ c expiresAt reused, StartAnswered (.step 1) 20 1 c expiresAt reused
        (Lib.run staffAct (staffWorld staffStore) ((starting ++ [.step 0]) ++ startingAgain)) →
      c = 5 ∧ expiresAt = 110 ∧ reused = true) ∧
    StartAnswered (.step 1) 20 1 5 110 true
      (Lib.run staffAct (staffWorld staffStore) ((starting ++ [.step 0]) ++ startingAgain)) ∧
    ∃ staffId, SupersedingLink 7 staffId 4 300025 (Lib.run staffAct (staffWorld staffStore) issuing).db
      (Lib.run staffAct (staffWorld staffStore) (issuing ++ [.step 1])).db :=
  have hstart : StartAnswered (.step 0) 10 1 5 110 false
      (Lib.run staffAct (staffWorld staffStore) starting) := ⟨"hash".toList, 5, 100, true, by rfl⟩
  have hagain : StartAnswered (.step 1) 20 1 5 110 true
      (Lib.run staffAct (staffWorld staffStore) ((starting ++ [.step 0]) ++ startingAgain)) :=
    ⟨"hash".toList, 6, 100, true, by rfl⟩
  have hopen : (Lib.run staffAct (staffWorld staffStore)
      ((starting ++ [.step 0]) ++ startingAgain)).db.opens 1 (.challenge 5) = true := by rfl
  have hlink : LinkAnswered (.step 1) 7 4 300025 (Lib.run staffAct (staffWorld staffStore) issuing) :=
    ⟨25, 4, "second".toList, by rfl⟩
  ⟨fun _ _ _ h => ((one_way_in_of_a_kind staffStore_ok starting (.step 0)).2.1 _ _ _ _ _ hstart).2
    startingAgain _ _ _ _ _ h hopen (by decide), hagain,
    (one_way_in_of_a_kind staffStore_ok issuing (.step 1)).2.2 _ _ _ hlink⟩

/-- The login commits its session, and the disabling comes to its commit. -/
def disabling : List (StoreAct StaffCall) :=
  entering ++
    .start (.completeLogin 13 5 "code".toList 9 "token".toList 1000) :: List.replicate 2 (StoreAct.step 3) ++
    .start (.disableStaffAccount 14 "Ann".toList) :: List.replicate 4 (StoreAct.step 4) ++
    List.replicate 6 (StoreAct.step 3) ++ List.replicate 5 (StoreAct.step 4)

/-- The way in has turned into something else for good. -/
def StaffDb.Spent (db : StaffDb) : WayIn → Prop
  | .challenge id => ∃ r, db.challenges.find? id = some r ∧ r.status.isOpen = false
  | .link id => ∃ r, db.links.find? id = some r ∧ r.status ≠ .issued

theorem Spent.kept {a b : StaffDb} {w : WayIn} (h : a.Spent w) (hkept : RowsKept a b) : b.Spent w := by
  cases w with
  | challenge id =>
    obtain ⟨r, hr, hclosed⟩ := h
    obtain ⟨r', hr', -, -, hopen⟩ := hkept.challenges id r hr
    refine ⟨r', hr', Bool.eq_false_of_not_eq_true (fun ho => ?_)⟩
    rw [hopen ho] at hclosed
    cases hclosed
  | link id =>
    obtain ⟨r, hr, hclosed⟩ := h
    obtain ⟨r', hr', -, hopen⟩ := hkept.links id r hr
    exact ⟨r', hr', fun ho => hclosed (hopen ho)⟩

theorem Spent.not_open {a : StaffDb} {w : WayIn} (h : a.Spent w) (staffId : StaffId) :
    a.opens staffId w = false := by
  cases w with
  | challenge id =>
    obtain ⟨r, hr, hclosed⟩ := h
    unfold opens
    simp [hr, hclosed]
  | link id =>
    obtain ⟨r, hr, hclosed⟩ := h
    unfold opens
    simp [hr, hclosed]

theorem spent_of_closed {a b : StaffDb} {w : WayIn} {staffId : StaffId} (hopen : a.opens staffId w = true)
    (hclosed : b.opens staffId w = false) (hkept : RowsKept a b) : b.Spent w := by
  cases w with
  | challenge id =>
    unfold opens at hopen hclosed
    dsimp only at hopen hclosed
    cases hr : a.challenges.find? id with
    | none =>
      rw [hr] at hopen
      cases hopen
    | some r =>
      obtain ⟨r', hr', hstaff, -⟩ := hkept.challenges id r hr
      rw [hr] at hopen
      rw [hr'] at hclosed
      simp only [Option.any_some, Bool.and_eq_true, decide_eq_true_eq] at hopen
      refine ⟨r', hr', ?_⟩
      simpa [hstaff, hopen.1] using hclosed
  | link id =>
    unfold opens at hopen hclosed
    dsimp only at hopen hclosed
    cases hr : a.links.find? id with
    | none =>
      rw [hr] at hopen
      cases hopen
    | some r =>
      obtain ⟨r', hr', hstaff, -⟩ := hkept.links id r hr
      rw [hr] at hopen
      rw [hr'] at hclosed
      simp only [Option.any_some, Bool.and_eq_true, decide_eq_true_eq] at hopen
      refine ⟨r', hr', ?_⟩
      simpa [hstaff, hopen.1] using hclosed

/-- The way in that a reply's session has closed. -/
def StaffReply.spends : StaffReply → Option WayIn
  | .session way _ => some way
  | _ => none

theorem session_of_spends {reply : StaffReply} {way : WayIn} (h : reply.spends = some way) :
    ∃ row, reply = .session way row := by
  cases reply with
  | session way' row => exact ⟨row, congrArg (StaffReply.session · row) (Option.some.inj h)⟩
  | _ => cases h

/-- **A challenge or a link starts one session at most**, over every interleaving of every transaction. -/
theorem way_in_starts_one_session (hok : db.Ok) (acts : List (StoreAct StaffCall)) :
    ((StoreWorld.answers StaffCall.program (staffWorld db) acts).filterMap (fun p =>
      p.2.spends)).Nodup := by
  have hstart : (([] : List (StaffCall × StaffReply)).filterMap (fun p => p.2.spends)).Nodup ∧
      ∀ w ∈ ([] : List (StaffCall × StaffReply)).filterMap (fun p => p.2.spends),
        (staffWorld db).db.Spent w :=
    ⟨List.nodup_nil, fun w hw => absurd hw List.not_mem_nil⟩
  have h := staff_sound.history (H := fun hist s => (hist.filterMap (fun p => p.2.spends)).Nodup ∧
    ∀ w ∈ hist.filterMap (fun p => p.2.spends), s.Spent w) (Protocol.WorldOk.initial hok) hstart ?_ acts
  · exact h.1
  · rintro hist call began a b answer - - hrely hpost ⟨hnodup, hspent⟩
    have hold : ∀ w ∈ hist.filterMap (fun p => p.2.spends), b.Spent w :=
      fun w hw => Spent.kept (hspent w hw) hrely
    rw [List.filterMap_append]
    cases hs : answer.spends with
    | none =>
      have hnil : [(call, answer)].filterMap (fun p => p.2.spends) = [] := by simp [hs]
      rw [hnil, List.append_nil]
      exact ⟨hnodup, hold⟩
    | some way =>
      have hone : [(call, answer)].filterMap (fun p => p.2.spends) = [way] := by simp [hs]
      rw [hone]
      obtain ⟨row, rfl⟩ := session_of_spends hs
      obtain ⟨hopen, hclosed, -⟩ := hpost
      refine ⟨List.nodup_append.mpr ⟨hnodup, List.nodup_singleton way, fun w hw w' hw' heq => ?_⟩,
        fun w hw => ?_⟩
      · -- a way in that was spent before is not open any more
        rw [heq, List.mem_singleton.mp hw'] at hw
        rw [Spent.not_open (hspent way hw) row.staffId] at hopen
        cases hopen
      · rcases List.mem_append.mp hw with hw | hw
        · exact hold w hw
        · rw [List.mem_singleton.mp hw]
          exact spent_of_closed hopen hclosed hrely

theorem way_in_starts_one_session_entering :
    ((StoreWorld.answers StaffCall.program (staffWorld staffStore) disabling).filterMap
      (fun p => p.2.spends)).Nodup :=
  way_in_starts_one_session staffStore_ok disabling

end StaffRuns

end Binarius
