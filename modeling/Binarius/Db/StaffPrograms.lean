import Mathlib.Tactic
import Binarius.Db.StaffKept

/-!
# Db.StaffPrograms — what each staff transaction has done at its commit (packages/db/src: staff-ops.ts,
staff-link-ops.ts)

* `StaffPost`: **what the answer of a call says of the store before and after its commit**.
* `wp_closeWays`, `wp_closeSessions`: the loops over what is open of an account; `wp_invalidateIssued`: what
  was issued is closed at the commit.
* `wp_startSession`, `wp_openWay`, `wp_narrowing`: the three things that the other transactions do.
* `wp_runAsStaff`: a request of the admin pages under its own session.
-/

namespace Binarius

open Lib StaffDb

/-! ## What an answer says -/

/-- The account's row as the call writes it. -/
def StaffCall.Wrote (r : StaffRow) : StaffCall → Prop
  | .disableStaffAccount now login =>
    lowerLogin r.login = lowerLogin login ∧ r.status = .disabled ∧ r.updatedAt = now
  | .resetStaffPassword now login passwordHash =>
    lowerLogin r.login = lowerLogin login ∧ r.passwordHash = passwordHash ∧ r.updatedAt = now
  | .changePassword now _ _ _ passwordHash =>
    r.status = .active ∧ r.passwordHash = passwordHash ∧ r.updatedAt = now
  | _ => False

/-- The session that the call leaves: a member's own, when they change their password. -/
def StaffCall.Keeps (sessions : Table StaffSessionRow) (x : StaffId) (keep : Option StaffSessionId) :
    StaffCall → Prop
  | .changePassword _ _ token _ _ =>
    ∃ i r, keep = some i ∧ sessions.find? i = some r ∧ r.tokenHash = token ∧ r.staffId = x
  | _ => keep = none

/-- The challenge of a login that starts: an open one that is not over is shared. -/
structure SharedChallenge (now : ℕ) (x : StaffId) (c : ChallengeId) (expiresAt : ℕ) (reused : Bool)
    (a b : StaffDb) : Prop where
  row : ∃ r, b.challenges.find? c = some r ∧ r.staffId = x ∧ r.expiresAt = expiresAt
  only : ∀ i, b.opens x (.challenge i) = true → i = c
  shared : ∀ i r, a.challenges.find? i = some r → r.staffId = x → r.status.isOpen = true →
    now < r.expiresAt → i = c ∧ reused = true
  created : reused = false → a.challenges.find? c = none ∧ b.opens x (.challenge c) = true

/-- The link that is issued: the former ones are superseded. -/
structure SupersedingLink (telegramUserId : ℕ) (x : StaffId) (l : LinkId) (expiresAt : ℕ) (a b : StaffDb) :
    Prop where
  member : ∃ r, b.staff.find? x = some r ∧ r.telegramUserId = telegramUserId ∧ r.status = .active
  created : a.links.find? l = none ∧
    ∃ r, b.links.find? l = some r ∧ r.staffId = x ∧ r.status = .issued ∧ r.expiresAt = expiresAt
  only : ∀ i, b.opens x (.link i) = true → i = l
  superseded : ∀ i, a.opens x (.link i) = true → ∃ r, b.links.find? i = some r ∧ r.status = .superseded

/-- What a commit answers for: a start's challenge is the only one, a new link supersedes the former, a
session has closed its way in, an invalidation has left nothing. -/
def StaffPost (call : StaffCall) (a b : StaffDb) : StaffReply → Prop
  | .challenge c expiresAt reused _ => ∃ now x passwordHash fresh ttlMs,
      call = .startLoginChallenge now x passwordHash fresh ttlMs ∧
      SharedChallenge now x c expiresAt reused a b
  | .link l expiresAt => ∃ now telegramUserId token x, call = .issueLoginLink now telegramUserId l token ∧
      SupersedingLink telegramUserId x l expiresAt a b
  | .session way row => a.opens row.staffId way = true ∧ b.opens row.staffId way = false ∧
      a.sessions.find? row.id = none ∧ b.sessions.find? row.id = some row ∧ ActiveRow row.staffId a
  | .invalidated _ _ _ => ∃ x r keep, b.staff.find? x = some r ∧ call.Wrote r ∧
      call.Keeps b.sessions x keep ∧ b.ClosedBut x keep call.now
  | _ => True

section Programs

variable {pending : Option StaffId} {held held' : List (StaffLock × LockMode)} {writes : StaffDb → StaffDb}
  {db db' a b : StaffDb} {x : StaffId} {now : ℕ} {call : StaffCall}

theorem working_start (hok : db.Ok) : Protocol.Tracks staffRows (fun a b => b = a) [] id db :=
  Protocol.Tracks.start hok (fun _ _ => rfl)

theorem good_of_untouched (h : Protocol.Tracks staffRows (fun a b => b = a) held writes db) :
    Protocol.Tracks staffRows (Good none held) held writes db :=
  h.mono (by
    rintro a b hinv rfl
    exact Good.refl hinv)

/-- Nothing more is to be said of the answer. -/
theorem commits_good (h : Protocol.Tracks staffRows (Good none held) held writes db) {reply : StaffReply}
    (hpost : ∀ a b, StaffPost call a b reply) :
    staffProtocol.Commits (StaffPost call) reply held writes db :=
  h.commits (fun a b _ hE => ⟨hE.guarantee, hpost a b⟩)

theorem commits_untouched (h : Protocol.Tracks staffRows (fun a b => b = a) held writes db)
    {reply : StaffReply} (hpost : ∀ a b, StaffPost call a b reply) :
    staffProtocol.Commits (StaffPost call) reply held writes db :=
  commits_good (good_of_untouched h) hpost

/-- **No way in of the account opens while its row is locked.** -/
theorem none_before (h : Working pending held writes db) (hlock : (.staff x, .exclusive) ∈ held)
    (henv : staffProtocol.Env held db db') {w : WayIn} (hnone : (writes db).opens x w = false) :
    (writes db').opens x w = false := by
  cases hw : (writes db').opens x w with
  | false => rfl
  | true => exact (opens_before h hlock henv hw).symm.trans hnone

/-! ### Closing what is open of an account -/

/-- **The loop over the open ways in of one kind**: none of them is open at its end. -/
theorem wp_closeWays (kind : ℕ → WayIn) (W : WayIn → Prop) {f : ℕ → StaffDb → StaffDb}
    {lock : ℕ → StaffLock} {ids : List ℕ} {F : StaffDb → StaffDb → Prop}
    {Q : List ℕ → List (StaffLock × LockMode) → (StaffDb → StaffDb) → StaffDb → Prop}
    (h : Protocol.Tracks staffRows (fun a b => Good pending held a b ∧ F a b) held writes db)
    (hlock : (.staff x, .exclusive) ∈ held)
    (hf : ∀ i, WritesRow (lock i) (f i)) (hn : ∀ i b, Narrows b (f i b))
    (hclosed : ∀ i b, (f i b).opens x (kind i) = false)
    (hF : ∀ i a b, F a b → F a (f i b))
    (hids : ∀ i, (writes db).opens x (kind i) = true → i ∈ ids)
    (hW : ∀ w, (writes db).opens x w = true → W w)
    (hQ : ∀ out held' writes' db', (.staff x, .exclusive) ∈ held' →
      Protocol.Tracks staffRows (fun a b => Good pending held' a b ∧ F a b) held' writes' db' →
      (∀ w, (writes' db').opens x w = true → W w ∧ ∀ i, w ≠ kind i) → Q out held' writes' db') :
    staffProtocol.wp (.changeAll lock (fun i db => db.opens x (kind i)) f ids : StaffTx (List ℕ)) Q held
      writes db := by
  refine Protocol.wp_changeAll (fun done _ held' writes' db' =>
    (.staff x, .exclusive) ∈ held' ∧
    Protocol.Tracks staffRows (fun a b => Good pending held' a b ∧ F a b) held' writes' db' ∧
    (∀ i, (writes' db').opens x (kind i) = true → i ∈ ids) ∧
    ∀ w, (writes' db').opens x w = true → W w ∧ ∀ i ∈ done, w ≠ kind i)
    ⟨hlock, h, hids, fun w hw => ⟨hW w hw, fun i hi => absurd hi List.not_mem_nil⟩⟩ ?_ ?_ ?_
  · rintro i done written held' writes' db₁ db₂ ⟨hlock', h', hids', hW'⟩ henv - hp
    have hbefore : ∀ w, (writes' db₂).opens x w = true → (writes' db₁).opens x w = true :=
      fun w hw => opens_before (h'.mono fun _ _ _ hE => hE.1) hlock' henv hw
    refine ⟨hlock', h'.env henv, fun j hj => hids' j (hbefore _ hj), fun w hw =>
      ⟨(hW' w (hbefore w hw)).1, ?_⟩⟩
    intro j hj heq
    rcases List.mem_append.mp hj with hj | hj
    · exact (hW' w (hbefore w hw)).2 j hj heq
    · rw [heq, List.mem_singleton.mp hj, hp] at hw
      cases hw
  · rintro i done written held' writes' db₁ db₂ ⟨hlock', h', hids', hW'⟩ henv - hp
    have hbefore : ∀ w, (f i (writes' db₂)).opens x w = true → (writes' db₁).opens x w = true :=
      fun w hw => opens_before (h'.mono fun _ _ _ hE => hE.1) hlock' henv ((hn i _).ways x w hw)
    have hwritten : Protocol.Tracks staffRows
        (fun a b => Good pending ((lock i, .exclusive) :: held') a b ∧ F a b)
        ((lock i, .exclusive) :: held') (f i ∘ writes') db₂ :=
      ((h'.env henv).lock (lock i) .exclusive).write (hf i).rows
        (fun a b _ hE => ⟨hE.1.narrows (hf i) (hn i b), hF i a b hE.2⟩)
    refine ⟨List.mem_cons_of_mem _ hlock', hwritten, fun j hj => hids' j (hbefore _ hj),
      fun w hw => ⟨(hW' w (hbefore w hw)).1, ?_⟩⟩
    intro j hj heq
    rcases List.mem_append.mp hj with hj | hj
    · exact (hW' w (hbefore w hw)).2 j hj heq
    · have hnow : (f i (writes' db₂)).opens x w = true := hw
      rw [heq, List.mem_singleton.mp hj, hclosed] at hnow
      cases hnow
  · rintro written held' writes' db₁ ⟨hlock', h', hids', hW'⟩
    refine hQ written held' writes' db₁ hlock' h' (fun w hw => ⟨(hW' w hw).1, fun i heq => ?_⟩)
    exact (hW' w hw).2 i (hids' i (heq ▸ hw)) heq

/-- A standing session of the member was there, standing, once no way in is open. -/
theorem standing_before (h : Working pending held writes db) (hlock : (.staff x, .exclusive) ∈ held)
    (hclosed : ∀ w, (writes db).opens x w = false) (henv : staffProtocol.Env held db db')
    {id : StaffSessionId} {r : StaffSessionRow} (hr : (writes db').sessions.find? id = some r)
    (hs : r.staffId = x) (hstanding : r.standing now = true) :
    ∃ r₀, (writes db).sessions.find? id = some r₀ ∧ r₀.staffId = x ∧ r₀.standing now = true := by
  by_cases hheld : (.session id, .exclusive) ∈ held
  · have hsame : SameRow (.session id) (writes db) (writes db') :=
      h.rows (.session id) db db' (henv.same _ _ hheld).1
    exact ⟨r, Eq.trans hsame hr, hs, hstanding⟩
  · have hsame : SameRow (.session id) db' (writes db') := (h.tracks db' henv).rows _ hheld
    have hsame₀ : SameRow (.session id) db (writes db) := h.now.rows _ hheld
    obtain ⟨r₀, hr₀, hstaff, hexpires, hrevoked⟩ :=
      staffSession_before h hlock hclosed henv (Eq.trans hsame hr) hs
    refine ⟨r₀, Eq.trans (Eq.symm hsame₀) hr₀, hstaff.symm.trans hs, ?_⟩
    unfold StaffSessionRow.standing at hstanding ⊢
    rw [Bool.and_eq_true] at hstanding ⊢
    refine ⟨?_, hexpires ▸ hstanding.2⟩
    cases hnone : r₀.revokedAt with
    | none => rfl
    | some t =>
      have hsome := hrevoked (by rw [hnone]; rfl)
      rw [Option.isNone_iff_eq_none] at hstanding
      rw [hstanding.1] at hsome
      cases hsome

/-- What is not standing is revoked or over. -/
theorem over_of_not_standing {r : StaffSessionRow} (h : r.standing now = false) :
    r.revokedAt.isSome = true ∨ r.expiresAt ≤ now := by
  unfold StaffSessionRow.standing at h
  rcases Bool.and_eq_false_iff.mp h with hrevoked | hover
  · exact .inl (by rw [← Option.not_isNone, hrevoked]; rfl)
  · exact .inr (not_lt.mp (of_decide_eq_false hover))

/-- `revokedAt` and by whom. -/
def revokedRow (now : ℕ) (revoker : Option StaffId) (r : StaffSessionRow) : StaffSessionRow :=
  { r with revokedAt := some now, revokedByStaffId := revoker }

/-- **The loop over the sessions**, once no way in is open: whatever commits later, none stands but the one
that is kept. -/
theorem wp_closeSessions {keep : Option StaffSessionId} {revoker : Option StaffId} {ids : List ℕ}
    {F : StaffDb → StaffDb → Prop}
    {Q : List ℕ → List (StaffLock × LockMode) → (StaffDb → StaffDb) → StaffDb → Prop}
    (h : Protocol.Tracks staffRows (fun a b => Good pending held a b ∧ F a b) held writes db)
    (hlock : (.staff x, .exclusive) ∈ held) (hnone : ∀ w, (writes db).opens x w = false)
    (hF : ∀ i a b, F a b → F a (b.setSession i (revokedRow now revoker)))
    (hids : ∀ id r, (writes db).sessions.find? id = some r → r.staffId = x → r.standing now = true →
      keep ≠ some id → id ∈ ids)
    (hQ : ∀ out held' writes' db',
      Protocol.Tracks staffRows (fun a b => Good pending held' a b ∧ F a b) held' writes' db' →
      (∀ db'', staffProtocol.Env held' db' db'' → (writes' db'').ClosedBut x keep now) →
      Q out held' writes' db') :
    staffProtocol.wp (.changeAll .session
        (fun i db => (db.sessions.find? i).any (fun r =>
          decide (r.staffId = x) && r.standing now && decide (keep ≠ some r.id)))
        (fun i => StaffDb.setSession i (revokedRow now revoker)) ids : StaffTx (List ℕ)) Q held writes db := by
  have hid : ∀ {b : StaffDb} {i : ℕ} {r : StaffSessionRow}, b.sessions.find? i = some r → r.id = i :=
    fun hr => Table.key_of_find? hr
  refine Protocol.wp_changeAll (fun done _ held' writes' db' => (.staff x, .exclusive) ∈ held' ∧
    Protocol.Tracks staffRows (fun a b => Good pending held' a b ∧ F a b) held' writes' db' ∧
    (∀ w, (writes' db').opens x w = false) ∧
    ∀ id r, (writes' db').sessions.find? id = some r → r.staffId = x → r.standing now = true →
      keep ≠ some id → id ∈ ids ∧ id ∉ done)
    ⟨hlock, h, hnone, fun id r hr hs hst hk => ⟨hids id r hr hs hst hk, List.not_mem_nil⟩⟩ ?_ ?_ ?_
  · rintro i done written held' writes' dbᵢ db' ⟨hlock', h', hways', hsessions'⟩ henv - hp
    have hworking := h'.mono fun _ _ _ hE => hE.1
    refine ⟨hlock', h'.env henv, fun w => none_before hworking hlock' henv (hways' w),
      fun id r hr hs hstanding hkeep => ?_⟩
    obtain ⟨r₀, hr₀, hs₀, hstanding₀⟩ := standing_before hworking hlock' hways' henv hr hs hstanding
    obtain ⟨hmem, hnot⟩ := hsessions' id r₀ hr₀ hs₀ hstanding₀ hkeep
    refine ⟨hmem, fun hdone => ?_⟩
    rcases List.mem_append.mp hdone with hdone | hdone
    · exact hnot hdone
    · rw [← List.mem_singleton.mp hdone, hr] at hp
      simp [hs, hstanding, hid hr, hkeep] at hp
  · rintro i done written held' writes' dbᵢ db' ⟨hlock', h', hways', hsessions'⟩ henv - hp
    have hworking := h'.mono fun _ _ _ hE => hE.1
    have hn : ∀ b : StaffDb, Narrows b (b.setSession i (revokedRow now revoker)) :=
      fun b => narrows_setSession (fun _ => rfl) (fun _ => ⟨rfl, rfl, fun _ => rfl⟩)
    have hrow : WritesRow (.session i) (StaffDb.setSession i (revokedRow now revoker)) :=
      writesRow_setSession (fun _ => rfl)
    have hwritten : Protocol.Tracks staffRows
        (fun a b => Good pending ((.session i, .exclusive) :: held') a b ∧ F a b)
        ((.session i, .exclusive) :: held') (_ ∘ writes') db' :=
      ((h'.env henv).lock (.session i) .exclusive).write hrow.rows
        (fun a b _ hE => ⟨hE.1.narrows hrow (hn b), hF i a b hE.2⟩)
    refine ⟨List.mem_cons_of_mem _ hlock', hwritten, fun w => ?_, fun id r hr hs hstanding hkeep => ?_⟩
    · have hbefore := none_before hworking hlock' henv (hways' w)
      cases w <;> exact hbefore
    · have hmodified : ((writes' db').setSession i (revokedRow now revoker)).sessions.find? id = some r := hr
      rw [find?_setSession (f := revokedRow now revoker) (fun _ => rfl)] at hmodified
      split at hmodified
      · obtain ⟨r', -, rfl⟩ := Option.map_eq_some_iff.mp hmodified
        simp [StaffSessionRow.standing, revokedRow] at hstanding
      · rename_i hne
        obtain ⟨r₀, hr₀, hs₀, hstanding₀⟩ :=
          standing_before hworking hlock' hways' henv hmodified hs hstanding
        obtain ⟨hmem, hnot⟩ := hsessions' id r₀ hr₀ hs₀ hstanding₀ hkeep
        refine ⟨hmem, fun hdone => ?_⟩
        rcases List.mem_append.mp hdone with hdone | hdone
        · exact hnot hdone
        · exact hne (List.mem_singleton.mp hdone).symm
  · rintro revoked held' writes' db' ⟨hlock', h', hways', hsessions'⟩
    have hworking := h'.mono fun _ _ _ hE => hE.1
    refine hQ revoked held' writes' db' h' (fun db'' henv => ⟨fun w => none_before hworking hlock' henv
      (hways' w), fun id r hr hs => ?_⟩)
    by_cases hkeep : keep = some id
    · exact .inl hkeep
    · cases hstanding : r.standing now with
      | false => exact .inr (over_of_not_standing hstanding)
      | true =>
        obtain ⟨r₀, hr₀, hs₀, hstanding₀⟩ := standing_before hworking hlock' hways' henv hr hs hstanding
        obtain ⟨hmem, hnot⟩ := hsessions' id r₀ hr₀ hs₀ hstanding₀ hkeep
        exact absurd hmem hnot

/-- The account as the call has written it, and the session that it keeps. -/
def Changed (call : StaffCall) (x : StaffId) (keep : Option StaffSessionId) (b : StaffDb) : Prop :=
  (∃ r, b.staff.find? x = some r ∧ call.Wrote r) ∧ call.Keeps b.sessions x keep

/-- A revocation leaves whose session it was. -/
theorem Changed.revoked {keep : Option StaffSessionId} {revoker : Option StaffId} {i : StaffSessionId}
    (h : Changed call x keep b) : Changed call x keep (b.setSession i (revokedRow now revoker)) := by
  refine ⟨h.1, ?_⟩
  obtain ⟨-, hkeeps⟩ := h
  have hfind : ∀ j r, b.sessions.find? j = some r →
      ∃ r', (b.setSession i (revokedRow now revoker)).sessions.find? j = some r' ∧
        r'.tokenHash = r.tokenHash ∧ r'.staffId = r.staffId := by
    intro j r hr
    rw [find?_setSession (f := revokedRow now revoker) (fun _ => rfl), hr]
    split
    · exact ⟨_, rfl, rfl, rfl⟩
    · exact ⟨r, rfl, rfl, rfl⟩
  cases call with
  | changePassword now idleMs token seen passwordHash =>
    obtain ⟨j, r, hkeep, hr, htoken, hstaff⟩ := hkeeps
    obtain ⟨r', hr', htoken', hstaff'⟩ := hfind j r hr
    exact ⟨j, r', hkeep, hr', htoken'.trans htoken, hstaff'.trans hstaff⟩
  | _ => exact hkeeps

/-- **What was issued under the account is closed at the commit**, whatever logins were in flight. -/
theorem wp_invalidateIssued (call : StaffCall) {keep : Option StaffSessionId} {revoker : Option StaffId}
    (hupdated : ∀ r, call.Wrote r → r.updatedAt = call.now)
    (hkeep : keep = none ∨ ∀ r, call.Wrote r → r.status = .active)
    (h : Protocol.Tracks staffRows (fun a b => Good (some x) held a b ∧ Changed call x keep b) held writes db)
    (hlock : (.staff x, .exclusive) ∈ held) :
    staffProtocol.wp (StaffTx.invalidateIssued call.now x keep revoker) (staffProtocol.Commits (StaffPost call))
      held writes db := by
  unfold StaffTx.invalidateIssued
  rw [Protocol.wp_monad_bind]
  intro db₁ henv₁
  rw [Protocol.wp_ret, Protocol.wp_monad_bind]
  refine wp_closeWays WayIn.challenge (fun _ => True) (h.env henv₁) hlock
    (fun i => writesRow_setChallenge (fun _ => rfl))
    (fun i b => narrows_setChallenge (fun _ => rfl) (fun _ => rfl) (fun _ => rfl) (fun _ _ ho => by cases ho))
    (fun i b => ?_) (fun i a b hb => hb) (fun i hi => ?_) (fun _ _ => trivial)
    (fun closed held₂ writes₂ db₂ hlock₂ h₂ hways₂ => ?_)
  · exact opens_setChallenge (fun _ => rfl) (fun _ _ => rfl)
  · exact mem_ids hi
  rw [Protocol.wp_monad_bind]
  intro db₃ henv₃
  rw [Protocol.wp_ret, Protocol.wp_monad_bind]
  have hways₃ : ∀ w, (writes₂ db₃).opens x w = true → ∀ i, w ≠ .challenge i :=
    fun w hw => (hways₂ w (opens_before (h₂.mono fun _ _ _ hE => hE.1) hlock₂ henv₃ hw)).2
  refine wp_closeWays WayIn.link (fun w => ∀ i, w ≠ .challenge i) (h₂.env henv₃) hlock₂
    (fun i => writesRow_setLink (fun _ => rfl))
    (fun i b => narrows_setLink (fun _ => rfl) (fun _ => rfl) (fun _ ho => by cases ho))
    (fun i b => ?_) (fun i a b hb => hb) (fun i hi => ?_) hways₃
    (fun closedLinks held₄ writes₄ db₄ hlock₄ h₄ hways₄ => ?_)
  · exact opens_setLink (fun _ => rfl) (fun _ ho => by cases ho)
  · exact mem_ids hi
  have hnone : ∀ w, (writes₄ db₄).opens x w = false := by
    intro w
    cases hw : (writes₄ db₄).opens x w with
    | false => rfl
    | true =>
      obtain ⟨hchallenge, hlink⟩ := hways₄ w hw
      cases w with
      | challenge i => exact absurd rfl (hchallenge i)
      | link i => exact absurd rfl (hlink i)
  rw [Protocol.wp_monad_bind]
  intro db₅ henv₅
  rw [Protocol.wp_ret, Protocol.wp_monad_bind]
  refine wp_closeSessions (h₄.env henv₅) hlock₄
    (fun w => none_before (h₄.mono fun _ _ _ hE => hE.1) hlock₄ henv₅ (hnone w))
    (fun i a b hb => hb.revoked) (fun id r hr hs hstanding hkept => mem_ids ?_)
    (fun out held₆ writes₆ db₆ h₆ hclosed => ?_)
  · rw [hr]
    simp [hs, hstanding, show r.id = id from Table.key_of_find? hr, hkept]
  · rw [Protocol.wp_pure]
    intro db₇ henv₇
    obtain ⟨hgood, ⟨r, hr, hwrote⟩, hkeeps⟩ := h₆.tracks db₇ henv₇
    refine ⟨(hgood.settled (fun r' hr' hdisabled => ?_)).guarantee, x, r, keep, hr, hwrote, hkeeps,
      hclosed db₇ henv₇⟩
    rw [hr] at hr'
    obtain rfl := Option.some.inj hr'
    rcases hkeep with rfl | hactive
    · exact hupdated r hwrote ▸ (hclosed db₇ henv₇).closed
    · rw [hactive r hwrote] at hdisabled
      cases hdisabled

/-! ### A session that a way in starts -/

theorem activeRow_of_opens {w : WayIn} (hok : a.Ok) (h : a.opens x w = true) : ActiveRow x a := by
  intro r hr
  cases hs : r.status with
  | active => rfl
  | disabled => exact absurd (h.symm.trans ((hok.disabled x r hr hs).ways w)) (Ne.symm Bool.false_ne_true)

theorem isOpen_of_attempted {codeHash : Text} {r : StaffLoginChallengeRow}
    (h : (r.attempted codeHash).status.isOpen = true) : r.status.isOpen = true := by
  unfold StaffLoginChallengeRow.attempted at h
  dsimp only at h
  split at h
  · cases h
  · split at h
    · cases h
    · exact h

theorem narrows_attempted (b : StaffDb) (c : ChallengeId) (codeHash : Text) :
    Narrows b (b.setChallenge c (StaffLoginChallengeRow.attempted codeHash)) :=
  narrows_setChallenge (fun _ => rfl) (fun _ => rfl) (fun _ => rfl) (fun _ _ h => isOpen_of_attempted h)

theorem opens_challenge {c : ChallengeId} {p : StaffLoginChallengeRow → Bool}
    (hp : (a.challenges.find? c).any p = true) (h : ∀ r, p r = true → r.staffId = x ∧
      r.status.isOpen = true) :
    a.opens x (.challenge c) = true := by
  unfold opens
  dsimp only
  cases hr : a.challenges.find? c with
  | none =>
    rw [hr] at hp
    cases hp
  | some r =>
    rw [hr] at hp
    obtain ⟨hs, ho⟩ := h r hp
    simp [hs, ho]

theorem opens_link {l : LinkId} {p : StaffLoginLinkRow → Bool}
    (hp : (a.links.find? l).any p = true) (h : ∀ r, p r = true → r.staffId = x ∧ r.status = .issued) :
    a.opens x (.link l) = true := by
  unfold opens
  dsimp only
  cases hr : a.links.find? l with
  | none =>
    rw [hr] at hp
    cases hp
  | some r =>
    rw [hr] at hp
    obtain ⟨hs, ho⟩ := h r hp
    simp [hs, ho]

/-- The session of a way in that this transaction has closed. -/
theorem wp_startSession {row : StaffSessionRow} {way : WayIn}
    (h : Protocol.Tracks staffRows (fun a b => Good none held a b ∧ a.opens row.staffId way = true ∧
      b.opens row.staffId way = false ∧ ActiveRow row.staffId a ∧ b.sessions = a.sessions ∧
      b.staff = a.staff) held writes db) :
    staffProtocol.wp (do StaffTx.insertSession row; pure (.session way row) : StaffTx StaffReply)
      (staffProtocol.Commits (StaffPost call)) held writes db := by
  unfold StaffTx.insertSession
  rw [Protocol.wp_monad_bind, Protocol.wp_monad_bind]
  refine h.wp_change (fun a b => Good none ((.session row.id, .exclusive) :: held) a b ∧
    StaffPost call a b (.session way row)) (fun a b hab => ?_) (writesRow_addSession row).rows ?_ ?_ ?_
  · rw [show a.sessions.find? row.id = b.sessions.find? row.id from hab]
  · rintro a b hinv ⟨hgood, hopen, hclosed, hactive, hsessions, hstaff⟩ hfree
    have hnone := Option.isNone_iff_eq_none.mp hfree
    refine ⟨hgood.addSession hnone ⟨way, hopen, hclosed⟩ (fun r hr => hactive r (hstaff ▸ hr)), hopen, ?_,
      hsessions ▸ hnone, ?_, hactive⟩
    · cases way <;> exact hclosed
    · show (b.sessions.inserted row).find? row.id = some row
      exact (Table.find?_inserted hnone row.id).trans (if_pos rfl)
  · intro db₁ henv₁ h₁ hp
    rw [if_neg Bool.false_ne_true]
    trivial
  · intro db₁ henv₁ hp h₁
    rw [if_pos rfl, Protocol.wp_pure, Protocol.wp_pure]
    exact h₁.commits (fun a b hinv hE => ⟨hE.1.guarantee, hE.2⟩)

theorem wp_refuseCode {c : ChallengeId} (h : Protocol.Tracks staffRows (fun a b => b = a) held writes db) :
    staffProtocol.wp (StaffTx.refuseCode now c) (staffProtocol.Commits (StaffPost call)) held writes db := by
  unfold StaffTx.refuseCode
  rw [Protocol.wp_monad_bind]
  refine Protocol.wp_selectForKey (fun db₁ henv₁ _ => ?_) (fun db₀ db₁ _ henv₀ _ henv₁ _ => ?_)
    (fun db₀ db₁ _ reason henv₀ _ henv₁ _ => ?_)
  · rw [Protocol.wp_pure]
    exact commits_untouched (h.env henv₁) (fun _ _ => trivial)
  · rw [Protocol.wp_pure]
    exact commits_untouched (h.env (henv₀.trans henv₁)) (fun _ _ => trivial)
  · rw [Protocol.wp_pure]
    exact commits_untouched ((h.env (henv₀.trans henv₁)).lock (.challenge c) .exclusive)
      (fun _ _ => trivial)

theorem wp_completeLogin {c : ChallengeId} {codeHash token : Text} {session : StaffSessionId} {ttlMs : ℕ}
    (hok : db.Ok) : staffProtocol.wp (StaffTx.completeLogin now c codeHash session token ttlMs)
      (staffProtocol.Commits (StaffPost call)) [] id db := by
  unfold StaffTx.completeLogin
  have hrow : WritesRow (.challenge c) (StaffDb.setChallenge c (StaffLoginChallengeRow.attempted codeHash)) :=
    writesRow_setChallenge (fun _ => rfl)
  rw [Protocol.wp_monad_bind]
  refine (working_start hok).wp_changeKey (fun staffId a b =>
    b = a.setChallenge c (StaffLoginChallengeRow.attempted codeHash) ∧
      a.opens staffId (.challenge c) = true) (fun i a b hab => ?_) (fun _ => hrow.rows) ?_ ?_ ?_
  · rw [show a.challenges.find? c = b.challenges.find? c from hab]
  · rintro i a b hinv rfl hp
    refine ⟨rfl, opens_challenge hp (fun r hr => ?_)⟩
    simp only [Bool.and_eq_true, decide_eq_true_eq] at hr
    exact ⟨hr.1.1.1, by rw [hr.1.1.2]; rfl⟩
  · intro db₁ henv₁ h₁
    exact wp_refuseCode h₁
  · intro staffId db₀ db₁ henv₀ hfind henv₁ h₁
    dsimp only
    rw [Protocol.wp_monad_bind]
    intro db₂ henv₂
    rw [Protocol.wp_ret]
    have h₂ := h₁.env henv₂
    split
    · rename_i hcompleted
      refine wp_startSession ((h₂.learn_row
        (fun b => (b.challenges.find? c).map (·.status) = some .completed) List.mem_cons_self hcompleted
        (fun a b hab hF => ?_)).mono ?_)
      · rw [← show a.challenges.find? c = b.challenges.find? c from hab]
        exact hF
      · rintro a b hinv ⟨⟨rfl, hopen⟩, hstatus⟩
        refine ⟨(Good.refl hinv).narrows hrow (narrows_attempted a c codeHash), hopen,
          opens_setChallenge (fun _ => rfl) (fun r hr => ?_), activeRow_of_opens hinv hopen, rfl, rfl⟩
        have hfind : (a.setChallenge c (StaffLoginChallengeRow.attempted codeHash)).challenges.find? c =
            some (r.attempted codeHash) := by
          refine (Table.find?_modified (f := StaffLoginChallengeRow.attempted codeHash) (fun _ =>
            rfl) c c).trans ?_
          rw [if_pos rfl, hr]
          rfl
        rw [hfind] at hstatus
        have hnow : (r.attempted codeHash).status = .completed := Option.some.inj hstatus
        rw [hnow]
        rfl
    · rw [Protocol.wp_pure]
      refine h₂.commits (fun a b hinv hE => ⟨?_, trivial⟩)
      obtain ⟨rfl, -⟩ := hE
      exact ((Good.refl hinv).narrows hrow (narrows_attempted a c codeHash)).guarantee

theorem wp_refuseLink {token : Text} (h : Protocol.Tracks staffRows (fun a b => b = a) held writes db) :
    staffProtocol.wp (StaffTx.refuseLink now token) (staffProtocol.Commits (StaffPost call)) held writes
      db := by
  unfold StaffTx.refuseLink
  rw [Protocol.wp_monad_bind]
  refine Protocol.wp_selectForKey (fun db₁ henv₁ _ => ?_) (fun db₀ db₁ _ henv₀ _ henv₁ _ => ?_)
    (fun db₀ db₁ p reason henv₀ _ henv₁ _ => ?_)
  · rw [Protocol.wp_pure]
    exact commits_untouched (h.env henv₁) (fun _ _ => trivial)
  · rw [Protocol.wp_pure]
    exact commits_untouched (h.env (henv₀.trans henv₁)) (fun _ _ => trivial)
  · rw [Protocol.wp_pure]
    exact commits_untouched ((h.env (henv₀.trans henv₁)).lock (.link p.1) .exclusive) (fun _ _ => trivial)

theorem wp_completeLinkLogin {token sessionToken : Text} {session : StaffSessionId} {ttlMs : ℕ}
    (hok : db.Ok) : staffProtocol.wp (StaffTx.completeLinkLogin now token session sessionToken ttlMs)
      (staffProtocol.Commits (StaffPost call)) [] id db := by
  unfold StaffTx.completeLinkLogin
  have hrow : ∀ l : LinkId, WritesRow (.link l)
      (StaffDb.setLink l (fun r => { r with status := .used, usedAt := some now })) :=
    fun l => writesRow_setLink (fun _ => rfl)
  rw [Protocol.wp_monad_bind]
  refine (working_start hok).wp_changeKey (fun p a b => Good none [(.link p.1, .exclusive)] a b ∧
    a.opens p.2 (.link p.1) = true ∧ b.opens p.2 (.link p.1) = false ∧ ActiveRow p.2 a ∧
    b.sessions = a.sessions ∧ b.staff = a.staff) (fun p a b hab => ?_) (fun p => (hrow p.1).rows) ?_ ?_ ?_
  · rw [show a.links.find? p.1 = b.links.find? p.1 from hab]
  · rintro p a b hinv rfl hp
    have hopen : b.opens p.2 (.link p.1) = true := by
      refine opens_link hp (fun r hr => ?_)
      simp only [Bool.and_eq_true, decide_eq_true_eq] at hr
      exact ⟨hr.1.1.2, hr.1.2⟩
    exact ⟨(Good.refl hinv).narrows (hrow p.1) (narrows_setLink (fun _ => rfl) (fun _ => rfl)
      (fun _ ho => by cases ho)), hopen, opens_setLink (fun _ => rfl) (fun _ ho => by cases ho),
      activeRow_of_opens hinv hopen, rfl, rfl⟩
  · intro db₁ henv₁ h₁
    exact wp_refuseLink h₁
  · intro p db₀ db₁ henv₀ hfind henv₁ h₁
    exact wp_startSession h₁

theorem wp_inspectLoginLink {token : Text} (hok : db.Ok) :
    staffProtocol.wp (StaffTx.inspectLoginLink now token) (staffProtocol.Commits (StaffPost call)) [] id
      db := by
  unfold StaffTx.inspectLoginLink
  rw [Protocol.wp_monad_bind]
  intro db₁ henv₁
  rw [Protocol.wp_ret, Protocol.wp_pure]
  exact commits_untouched ((working_start hok).env henv₁) (fun _ _ => trivial)

/-! ### One row, and nothing more is open for it -/

theorem wp_narrowing (reply : Bool → StaffReply) {l : StaffLock} {pred : StaffDb → Bool}
    {f : StaffDb → StaffDb} (h : Protocol.Tracks staffRows (Good none held) held writes db)
    (hpred : ∀ a b, SameRow l a b → pred b = pred a) (hf : WritesRow l f) (hn : ∀ b, Narrows b (f b))
    (hpost : ∀ done a b, StaffPost call a b (reply done)) :
    staffProtocol.wp (do let done ← .change l pred f; pure (reply done) : StaffTx StaffReply)
      (staffProtocol.Commits (StaffPost call)) held writes db := by
  rw [Protocol.wp_monad_bind]
  refine h.wp_change (fun a b => Good none ((l, .exclusive) :: held) a b) hpred hf.rows ?_ ?_ ?_
  · rintro a b hinv hgood hp
    exact hgood.narrows hf (hn b)
  · intro db₁ henv₁ h₁ hp
    rw [Protocol.wp_pure]
    exact commits_good h₁ (hpost false)
  · intro db₁ henv₁ hp h₁
    rw [Protocol.wp_pure]
    exact commits_good h₁ (hpost true)

theorem wp_narrowingKey {ι : Type} (reply : Option ι → StaffReply) {find : StaffDb → Option ι}
    {l : ι → StaffLock} {pred : ι → StaffDb → Bool} {f : ι → StaffDb → StaffDb}
    (h : Protocol.Tracks staffRows (Good none held) held writes db)
    (hpred : ∀ i a b, SameRow (l i) a b → pred i b = pred i a) (hf : ∀ i, WritesRow (l i) (f i))
    (hn : ∀ i b, Narrows b (f i b)) (hpost : ∀ done a b, StaffPost call a b (reply done)) :
    staffProtocol.wp (do let done ← .changeKey find l pred f; pure (reply done) : StaffTx StaffReply)
      (staffProtocol.Commits (StaffPost call)) held writes db := by
  rw [Protocol.wp_monad_bind]
  refine h.wp_changeKey (fun i a b => Good none ((l i, .exclusive) :: held) a b) hpred
    (fun i => (hf i).rows) ?_ ?_ ?_
  · rintro i a b hinv hgood hp
    exact hgood.narrows (hf i) (hn i b)
  · intro db₁ henv₁ h₁
    rw [Protocol.wp_pure]
    exact commits_good h₁ (hpost none)
  · intro i db₀ db₁ henv₀ hfind henv₁ h₁
    rw [Protocol.wp_pure]
    exact commits_good h₁ (hpost (some i))

theorem wp_markChallengePromptSent {c : ChallengeId} (hok : db.Ok) :
    staffProtocol.wp (StaffTx.markChallengePromptSent now c) (staffProtocol.Commits (StaffPost call)) [] id
      db := by
  refine wp_narrowing (fun done => .marked done) (good_of_untouched (working_start hok))
    (fun a b hab => ?_) (writesRow_setChallenge (fun _ => rfl)) (fun b => ?_) (fun _ _ _ => trivial)
  · rw [show a.challenges.find? c = b.challenges.find? c from hab]
  · exact narrows_setChallenge (fun _ => rfl) (fun _ => rfl) (fun _ => rfl) (fun _ _ ho => ho)

theorem wp_markChallengeCodeSent {c : ChallengeId} {codeHash : Text} (hok : db.Ok) :
    staffProtocol.wp (StaffTx.markChallengeCodeSent now c codeHash)
      (staffProtocol.Commits (StaffPost call)) [] id db := by
  refine wp_narrowing (fun done => .marked done) (good_of_untouched (working_start hok))
    (fun a b hab => ?_) (writesRow_setChallenge (fun _ => rfl)) (fun b => ?_) (fun _ _ _ => trivial)
  · rw [show a.challenges.find? c = b.challenges.find? c from hab]
  · exact narrows_setChallenge (fun _ => rfl) (fun _ => rfl) (fun _ => rfl) (fun _ _ ho => ho)

theorem wp_failDelivery {c : ChallengeId} {sent : Option Text} (hok : db.Ok) :
    staffProtocol.wp (StaffTx.failChallengeDelivery c sent) (staffProtocol.Commits (StaffPost call)) [] id
      db := by
  refine wp_narrowing (fun closed => .marked closed) (good_of_untouched (working_start hok))
    (fun a b hab => ?_) (writesRow_setChallenge (fun _ => rfl)) (fun b => ?_) (fun _ _ _ => trivial)
  · rw [show a.challenges.find? c = b.challenges.find? c from hab]
  · exact narrows_setChallenge (fun _ => rfl) (fun _ => rfl) (fun _ => rfl) (fun _ _ ho => by cases ho)

theorem wp_denyChallenge {c : ChallengeId} {telegramUserId : ℕ} (hok : db.Ok) :
    staffProtocol.wp (StaffTx.denyChallengeFromTelegram now c telegramUserId)
      (staffProtocol.Commits (StaffPost call)) [] id db := by
  refine wp_narrowingKey (fun denied => .denied denied) (good_of_untouched (working_start hok))
    (fun i a b hab => ?_) (fun _ => writesRow_setChallenge (fun _ => rfl)) (fun i b => ?_)
    (fun _ _ _ => trivial)
  · rw [show a.challenges.find? c = b.challenges.find? c from hab]
  · exact narrows_setChallenge (fun _ => rfl) (fun _ => rfl) (fun _ => rfl) (fun _ _ ho => by cases ho)

/-- The row was seen open under its lock, so the press that confirms it opens nothing. -/
theorem wp_confirmChallenge {c : ChallengeId} {telegramUserId : ℕ} {codeHash : Text} (hok : db.Ok) :
    staffProtocol.wp (StaffTx.confirmChallengeFromTelegram now c telegramUserId codeHash)
      (staffProtocol.Commits (StaffPost call)) [] id db := by
  unfold StaffTx.confirmChallengeFromTelegram
  dsimp only
  rw [Protocol.wp_monad_bind]
  have h := working_start hok
  refine Protocol.wp_selectForKey (fun db₁ henv₁ _ => ?_) (fun db₀ db₁ _ henv₀ _ henv₁ _ => ?_)
    (fun db₀ db₁ staffId row henv₀ _ henv₁ hold => ?_)
  · rw [Protocol.wp_pure]
    exact commits_untouched (h.env henv₁) (fun _ _ => trivial)
  · rw [Protocol.wp_pure]
    exact commits_untouched (h.env (henv₀.trans henv₁)) (fun _ _ => trivial)
  · have hopen : (db₁.challenges.find? c).any (·.status.isOpen) = true := by
      obtain ⟨hrow, hconfirmable⟩ := Option.filter_eq_some_iff.mp hold
      simp only [Bool.and_eq_true] at hconfirmable
      rw [show db₁.challenges.find? c = some row from hrow]
      exact hconfirmable.1.1.2
    have h₁ := ((h.env (henv₀.trans henv₁)).lock (.challenge c) .exclusive).learn_row
      (fun b => (b.challenges.find? c).any (·.status.isOpen) = true) List.mem_cons_self hopen
      (fun a b hab hF => by rw [← show a.challenges.find? c = b.challenges.find? c from hab]; exact hF)
    have hrow : WritesRow (.challenge c) (StaffDb.setChallenge c (fun r => { r with
        status := .confirmed, codeHash := some codeHash, confirmedAt := r.confirmedAt.or (some now) })) :=
      writesRow_setChallenge (fun _ => rfl)
    dsimp only
    rw [Protocol.wp_monad_bind]
    refine h₁.wp_change (fun a b => Good none [(.challenge c, .exclusive), (.challenge c, .exclusive)] a b)
      (fun a b hab => ?_) hrow.rows ?_ ?_ ?_
    · rw [show a.challenges.find? c = b.challenges.find? c from hab]
    · rintro a b hinv ⟨rfl, hseen⟩ hp
      refine ((Good.refl hinv).held_mono (fun _ hmem => absurd hmem List.not_mem_nil)).narrows hrow
        (narrows_setChallenge (fun _ => rfl) (fun _ => rfl) (fun _ => rfl) (fun r hr _ => ?_))
      rw [hr] at hseen
      exact hseen
    · intro db₂ henv₂ h₂ hp
      rw [Protocol.wp_pure]
      exact commits_untouched (h₂.mono fun _ _ _ hE => hE.1) (fun _ _ => trivial)
    · intro db₂ henv₂ hp h₂
      rw [Protocol.wp_pure]
      exact commits_good h₂ (fun _ _ => trivial)

/-! ### A new way in -/

theorem ActiveRow.of_row (h : ActiveRow x a) (hab : SameRow (.staff x) a b) : ActiveRow x b := by
  intro r hr
  exact h r ((show a.staff.find? x = b.staff.find? x from hab).trans hr)

/-- **A new way in**, where none of its kind is open and the account is active. -/
theorem wp_openWay (way : WayIn) {l : StaffLock} {free : StaffDb → Bool} {f : StaffDb → StaffDb}
    {F : StaffDb → StaffDb → Prop} {reply : StaffReply}
    (h : Protocol.Tracks staffRows (fun a b => Good none held a b ∧ ActiveRow x b ∧ F a b) held writes db)
    (hlock : (.staff x, .exclusive) ∈ held)
    (hnone : ∀ db', staffProtocol.Env held db db' → NoneLike x way (writes db'))
    (hfree : ∀ a b, SameRow l a b → free b = free a) (hf : WritesRow l f)
    (hw : ∀ b, free b = true → Widens x way b (f b))
    (hpost : ∀ a b, RowsKept a b → F a b → NoneLike x way b → free b = true → StaffPost call a (f b) reply) :
    staffProtocol.wp (do
        let created ← .change l free f
        if created then pure reply else .raise .uniqueViolation : StaffTx StaffReply)
      (staffProtocol.Commits (StaffPost call)) held writes db := by
  rw [Protocol.wp_monad_bind]
  have hclosed : Protocol.Tracks staffRows (fun a b => (Good none held a b ∧ ActiveRow x b ∧ F a b) ∧
      NoneLike x way b) held writes db :=
    ⟨h.inv, h.rows, fun db' henv => ⟨h.tracks db' henv, hnone db' henv⟩⟩
  refine hclosed.wp_change (fun a b => Good none ((l, .exclusive) :: held) a b ∧ StaffPost call a b reply)
    hfree hf.rows ?_ ?_ ?_
  · rintro a b hinv ⟨⟨hgood, hactive, hF⟩, hnoway⟩ hp
    exact ⟨hgood.widens hf (hw b hp) hlock hnoway hactive, hpost a b hgood.kept hF hnoway hp⟩
  · intro db₁ henv₁ h₁ hp
    rw [if_neg Bool.false_ne_true]
    trivial
  · intro db₁ henv₁ hp h₁
    rw [if_pos rfl, Protocol.wp_pure]
    exact h₁.commits (fun a b hinv hE => ⟨hE.1.guarantee, hE.2⟩)

/-- The button's member, and every link that was open: open still, or superseded. -/
def Superseding (telegramUserId : ℕ) (x : StaffId) (a b : StaffDb) : Prop :=
  (∃ r, b.staff.find? x = some r ∧ r.telegramUserId = telegramUserId ∧ r.status = .active) ∧
  ∀ i, a.opens x (.link i) = true →
    b.opens x (.link i) = true ∨ ∃ r, b.links.find? i = some r ∧ r.status = .superseded

theorem Superseding.set {telegramUserId : ℕ} (h : Superseding telegramUserId x a b) (i : LinkId) :
    Superseding telegramUserId x a (b.setLink i (fun r => { r with status := .superseded })) := by
  refine ⟨h.1, fun j hj => ?_⟩
  have hfind : (b.setLink i (fun r => { r with status := .superseded })).links.find? j =
      if i = j then (b.links.find? j).map (fun r => { r with status := .superseded })
      else b.links.find? j :=
    Table.find?_modified (f := fun r : StaffLoginLinkRow => { r with status := .superseded })
      (fun _ => rfl) i j
  rcases h.2 j hj with hopen | ⟨r, hr, hsuperseded⟩
  · unfold opens at hopen ⊢
    dsimp only at hopen ⊢
    rw [hfind]
    split
    · cases hr : b.links.find? j with
      | none =>
        rw [hr] at hopen
        cases hopen
      | some r => exact .inr ⟨_, rfl, rfl⟩
    · exact .inl hopen
  · rw [hfind, hr]
    split
    · exact .inr ⟨_, rfl, rfl⟩
    · exact .inr ⟨r, rfl, hsuperseded⟩

theorem supersedingLink_of_none {telegramUserId : ℕ} (row : StaffLoginLinkRow) (hkept : RowsKept a b)
    (h : Superseding telegramUserId row.staffId a b) (hnone : NoneLike row.staffId (.link row.id) b)
    (hfree : b.links.find? row.id = none) (hissued : row.status = .issued) :
    SupersedingLink telegramUserId row.staffId row.id row.expiresAt a (b.addLink row) := by
  have hfind : ∀ j, (b.addLink row).links.find? j =
      if row.id = j then some row else b.links.find? j := Table.find?_inserted hfree
  refine ⟨h.1, ⟨?_, row, (hfind row.id).trans (if_pos rfl), rfl, hissued, rfl⟩, fun i hi => ?_,
    fun i hi => ?_⟩
  · cases hr : a.links.find? row.id with
    | none => rfl
    | some r =>
      obtain ⟨r', hr', -⟩ := hkept.links row.id r hr
      rw [hfree] at hr'
      cases hr'
  · rcases (widens_addLink row hfree).own (.link i) hi with heq | hopen
    · exact WayIn.link.inj heq
    · exact absurd ((hnone i).symm.trans hopen) Bool.false_ne_true
  · rcases h.2 i hi with hopen | ⟨r, hr, hsuperseded⟩
    · exact absurd ((hnone i).symm.trans hopen) Bool.false_ne_true
    · refine ⟨r, ?_, hsuperseded⟩
      rw [hfind, if_neg (fun heq => by rw [heq, hr] at hfree; cases hfree)]
      exact hr

theorem wp_issueLoginLink {telegramUserId : ℕ} {l : LinkId} {token : Text} (hok : db.Ok) :
    staffProtocol.wp (StaffTx.issueLoginLink now telegramUserId l token)
      (staffProtocol.Commits (StaffPost (.issueLoginLink now telegramUserId l token))) [] id db := by
  unfold StaffTx.issueLoginLink
  rw [Protocol.wp_monad_bind]
  have h := working_start hok
  refine Protocol.wp_selectForKey (fun db₁ henv₁ hfind => ?_) (fun db₀ db₁ i henv₀ hfind henv₁ hrow => ?_)
    (fun db₀ db₁ i staff henv₀ hfind henv₁ hrow => ?_)
  · rw [Protocol.wp_pure]
    exact commits_untouched (h.env henv₁) (fun _ _ => trivial)
  · rw [Protocol.wp_pure]
    exact commits_untouched (h.env (henv₀.trans henv₁)) (fun _ _ => trivial)
  · obtain ⟨hstaff, htelegram⟩ := Option.filter_eq_some_iff.mp hrow
    have hkey : staff.id = i := Table.key_of_find? hstaff
    subst hkey
    have h₁ := (h.env (henv₀.trans henv₁)).lock (.staff staff.id) .exclusive
    dsimp only
    split
    · rename_i hstatus
      rw [Protocol.wp_monad_bind]
      intro db₂ henv₂
      rw [Protocol.wp_ret]
      split
      · rw [Protocol.wp_pure]
        exact commits_untouched (h₁.env henv₂) (fun _ _ => trivial)
      · rw [Protocol.wp_monad_bind]
        intro db₃ henv₃
        rw [Protocol.wp_ret, Protocol.wp_monad_bind]
        have hmember : Protocol.Tracks staffRows (fun a b => Good none [(.staff staff.id, .exclusive)] a b ∧
            ActiveRow staff.id b ∧ Superseding telegramUserId staff.id a b)
            [(.staff staff.id, .exclusive)] id db₁ := by
          refine (h₁.learn_row (fun b => b.staff.find? staff.id = some staff) List.mem_cons_self hstaff
            (fun a b hab hF => (show a.staff.find? staff.id = b.staff.find? staff.id from hab).symm.trans
              hF)).mono ?_
          rintro a b hinv ⟨rfl, hF⟩
          refine ⟨Good.refl hinv, fun r hr => ?_, ⟨staff, hF, of_decide_eq_true htelegram, hstatus⟩,
            fun _ hopen => .inl hopen⟩
          rw [hF] at hr
          exact Option.some.inj hr ▸ hstatus
        refine wp_closeWays WayIn.link (fun _ => True) (hmember.env (henv₂.trans henv₃)) List.mem_cons_self
          (fun i => writesRow_setLink (fun _ => rfl))
          (fun i b => narrows_setLink (fun _ => rfl) (fun _ => rfl) (fun _ ho => by cases ho))
          (fun i b => opens_setLink (fun _ => rfl) (fun _ ho => by cases ho))
          (fun i a b hb => ⟨hb.1, hb.2.set i⟩) (fun i hi => mem_ids hi) (fun _ _ => trivial)
          (fun closed held₄ writes₄ db₄ hlock₄ h₄ hways₄ => ?_)
        refine wp_openWay (.link l) h₄ hlock₄ (fun db' henv i => ?_) (fun a b hab => ?_)
          (writesRow_addLink ⟨l, staff.id, token, .issued, now, now + STAFF_LOGIN_LINK_TTL_MS, none⟩)
          (fun b hfree => widens_addLink ⟨l, staff.id, token, .issued, now,
            now + STAFF_LOGIN_LINK_TTL_MS, none⟩ (Option.isNone_iff_eq_none.mp hfree))
          (fun a b hkept hF hnone hfree => ⟨now, telegramUserId, token, staff.id, rfl,
            supersedingLink_of_none ⟨l, staff.id, token, .issued, now, now + STAFF_LOGIN_LINK_TTL_MS, none⟩
              hkept hF hnone (Option.isNone_iff_eq_none.mp hfree)
              rfl⟩)
        · refine none_before (h₄.mono fun _ _ _ hE => hE.1) hlock₄ henv ?_
          cases hopen : (writes₄ db₄).opens staff.id (.link i) with
          | false => rfl
          | true => exact absurd rfl ((hways₄ _ hopen).2 i)
        · rw [show a.links.find? l = b.links.find? l from hab]
    · rw [Protocol.wp_pure]
      exact commits_untouched h₁ (fun _ _ => trivial)

/-- The member's open challenges that are not over are as they were. -/
def Unexpired (now : ℕ) (x : StaffId) (a b : StaffDb) : Prop :=
  ∀ i r, a.challenges.find? i = some r → r.staffId = x → r.status.isOpen = true → now < r.expiresAt →
    b.challenges.find? i = some r

/-- A row that timed out is closed. -/
theorem Unexpired.set {i : ChallengeId} (h : Unexpired now x a b)
    (hover : (b.challenges.find? i).any (fun r => r.staffId = x && r.status.isOpen && r.expiresAt ≤ now) =
      true) :
    Unexpired now x a (b.setChallenge i (fun r => { r with status := .expired })) := by
  intro j r hr hstaff hopen hnow
  have hfind : (b.setChallenge i (fun r => { r with status := .expired })).challenges.find? j =
      if i = j then (b.challenges.find? j).map (fun r => { r with status := .expired })
      else b.challenges.find? j :=
    Table.find?_modified (f := fun r : StaffLoginChallengeRow => { r with status := .expired })
      (fun _ => rfl) i j
  have hrow := h j r hr hstaff hopen hnow
  by_cases hij : i = j
  · subst hij
    rw [hrow] at hover
    simp only [Option.any_some, Bool.and_eq_true, decide_eq_true_eq] at hover
    omega
  · rw [hfind, if_neg hij]
    exact hrow

/-- A challenge keeps its owner and its time, whatever commits. -/
theorem challenge_after (h : Working pending held writes db) (henv : staffProtocol.Env held db db')
    {i : ChallengeId} {r : StaffLoginChallengeRow} (hr : (writes db).challenges.find? i = some r) :
    ∃ r', (writes db').challenges.find? i = some r' ∧ r'.staffId = r.staffId ∧
      r'.expiresAt = r.expiresAt := by
  by_cases hheld : (.challenge i, .exclusive) ∈ held
  · have hsame : SameRow (.challenge i) (writes db) (writes db') :=
      h.rows (.challenge i) db db' (henv.same _ _ hheld).1
    exact ⟨r, Eq.trans (Eq.symm hsame) hr, rfl, rfl⟩
  · have hsame₀ : SameRow (.challenge i) db (writes db) := h.now.rows _ hheld
    have hsame : SameRow (.challenge i) db' (writes db') := (h.tracks db' henv).rows _ hheld
    obtain ⟨r', hr', hstaff, hexpires, -⟩ := henv.rely.challenges i r (Eq.trans hsame₀ hr)
    exact ⟨r', Eq.trans (Eq.symm hsame) hr', hstaff, hexpires⟩

theorem opens_of_find {i : ChallengeId} {r : StaffLoginChallengeRow} (hr : a.challenges.find? i = some r)
    (hstaff : r.staffId = x) (hopen : r.status.isOpen = true) : a.opens x (.challenge i) = true := by
  unfold opens
  simp [hr, hstaff, hopen]

theorem sharedChallenge_of_none (row : StaffLoginChallengeRow) (hkept : RowsKept a b)
    (h : Unexpired now row.staffId a b) (hnone : NoneLike row.staffId (.challenge row.id) b)
    (hfree : b.challenges.find? row.id = none) (hopen : row.status.isOpen = true) :
    SharedChallenge now row.staffId row.id row.expiresAt false a (b.addChallenge row) := by
  have hfind : ∀ j, (b.addChallenge row).challenges.find? j =
      if row.id = j then some row else b.challenges.find? j := Table.find?_inserted hfree
  have hrow : (b.addChallenge row).challenges.find? row.id = some row := (hfind row.id).trans (if_pos rfl)
  refine ⟨⟨row, hrow, rfl, rfl⟩, fun i hi => ?_, fun i r hr hs ho hnow => ?_,
    fun _ => ⟨?_, opens_of_find hrow rfl hopen⟩⟩
  · rcases (widens_addChallenge row hfree).own (.challenge i) hi with heq | hopen
    · exact WayIn.challenge.inj heq
    · exact absurd ((hnone i).symm.trans hopen) Bool.false_ne_true
  · exact absurd ((hnone i).symm.trans (opens_of_find (h i r hr hs ho hnow) hs ho)) Bool.false_ne_true
  · cases hr : a.challenges.find? row.id with
    | none => rfl
    | some r =>
      obtain ⟨r', hr', -⟩ := hkept.challenges row.id r hr
      rw [hfree] at hr'
      cases hr'

/-- The timed-out challenges are closed; the one that is left is shared, and a new one opens where none is. -/
theorem wp_openChallenge {passwordHash : Text} {c : ChallengeId} {ttlMs : ℕ}
    (h : Protocol.Tracks staffRows (fun a b => Good none held a b ∧ ActiveRow x b ∧ Unexpired now x a b)
      held writes db) (hlock : (.staff x, .exclusive) ∈ held) :
    staffProtocol.wp (StaffTx.openChallenge now x c ttlMs)
      (staffProtocol.Commits (StaffPost (.startLoginChallenge now x passwordHash c ttlMs))) held writes
      db := by
  unfold StaffTx.openChallenge
  dsimp only
  rw [Protocol.wp_monad_bind]
  intro db₁ henv₁
  rw [Protocol.wp_ret, Protocol.wp_monad_bind]
  refine Protocol.wp_changeAll (fun _ _ held' writes' db' => (.staff x, .exclusive) ∈ held' ∧
    Protocol.Tracks staffRows (fun a b => Good none held' a b ∧ ActiveRow x b ∧ Unexpired now x a b) held'
      writes' db')
    ⟨hlock, h.env henv₁⟩ ?_ ?_ ?_
  · rintro i done written held' writes' db₂ db' ⟨hlock', h'⟩ henv - -
    exact ⟨hlock', h'.env henv⟩
  · rintro i done written held' writes' db₂ db' ⟨hlock', h'⟩ henv - hp
    have hrow : WritesRow (.challenge i) (StaffDb.setChallenge i (fun r => { r with status := .expired })) :=
      writesRow_setChallenge (fun _ => rfl)
    have hseen := ((h'.env henv).lock (.challenge i) .exclusive).learn_row
      (fun b => (b.challenges.find? i).any
        (fun r => r.staffId = x && r.status.isOpen && r.expiresAt ≤ now) = true) List.mem_cons_self hp
      (fun a b hab hF => by rw [← show a.challenges.find? i = b.challenges.find? i from hab]; exact hF)
    refine ⟨List.mem_cons_of_mem _ hlock', hseen.write hrow.rows (fun a b _ hE => ?_)⟩
    obtain ⟨⟨hgood, hactive, hunexpired⟩, hover⟩ := hE
    exact ⟨hgood.narrows hrow (narrows_setChallenge (fun _ => rfl) (fun _ => rfl) (fun _ => rfl)
      (fun _ _ ho => by cases ho)), hactive, hunexpired.set hover⟩
  · rintro written held' writes' db₂ ⟨hlock', h'⟩
    rw [Protocol.wp_monad_bind]
    intro db₃ henv₃
    rw [Protocol.wp_ret]
    have h₃ := h'.env henv₃
    have hworking : Working none held' writes' db₃ := h₃.mono fun _ _ _ hE => hE.1
    split
    · rename_i row hfound
      rw [Protocol.wp_pure]
      intro db₄ henv₄
      obtain ⟨hgood, -, hunexpired⟩ := h₃.tracks db₄ henv₄
      have hrow : (writes' db₃).challenges.find? row.id = some row :=
        Table.find?_of_mem (List.mem_of_find?_eq_some hfound)
      have hmine := List.find?_some hfound
      simp only [Bool.and_eq_true, decide_eq_true_eq] at hmine
      have honly : ∀ i, (writes' db₄).opens x (.challenge i) = true → i = row.id := fun i hi =>
        (hworking.now.one x).1 i row.id (opens_before hworking hlock' henv₄ hi)
          (opens_of_find hrow hmine.1 hmine.2)
      obtain ⟨r, hr, hstaff, hexpires⟩ := challenge_after hworking henv₄ hrow
      refine ⟨hgood.guarantee, now, x, passwordHash, c, ttlMs, rfl, ⟨r, hr, hstaff.trans hmine.1, hexpires⟩,
        honly, fun i r' hr' hs ho hnow => ⟨?_, rfl⟩, fun hnot => by cases hnot⟩
      exact honly i (opens_of_find (hunexpired i r' hr' hs ho hnow) hs ho)
    · rename_i hfound
      refine wp_openWay (.challenge c) h₃ hlock' (fun db' henv i => ?_) (fun a b hab => ?_)
        (writesRow_addChallenge ⟨c, x, .pending, none, 0, now + ttlMs, none, none, none⟩)
        (fun b hfree => widens_addChallenge ⟨c, x, .pending, none, 0, now + ttlMs, none, none, none⟩
          (Option.isNone_iff_eq_none.mp hfree))
        (fun a b hkept hF hnone hfree => ⟨now, x, passwordHash, c, ttlMs, rfl,
          sharedChallenge_of_none ⟨c, x, .pending, none, 0, now + ttlMs, none, none, none⟩ hkept hF hnone
            (Option.isNone_iff_eq_none.mp hfree) rfl⟩)
      · refine none_before hworking hlock' henv ?_
        cases hopen : (writes' db₃).opens x (.challenge i) with
        | false => rfl
        | true =>
          -- it was open already, and so among the rows that were looked through
          unfold opens at hopen
          dsimp only at hopen
          cases hr : (writes' db₃).challenges.find? i with
          | none =>
            rw [hr] at hopen
            cases hopen
          | some r =>
            rw [hr] at hopen
            exact absurd hopen (List.find?_eq_none.mp hfound r (Table.mem_of_find? hr))
      · rw [show a.challenges.find? c = b.challenges.find? c from hab]

theorem wp_claimLogin {passwordHash : Text} {c : ChallengeId} {ttlMs : ℕ}
    (h : Protocol.Tracks staffRows (fun a b => b = a) held writes db) :
    staffProtocol.wp (StaffTx.claimLogin now x passwordHash c ttlMs)
      (staffProtocol.Commits (StaffPost (.startLoginChallenge now x passwordHash c ttlMs))) held writes
      db := by
  unfold StaffTx.claimLogin
  have hrow : WritesRow (.staff x)
      (StaffDb.setStaff x (fun r =>
        { r with failedPasswordAttempts := 0, lockedUntil := none, updatedAt := now })) :=
    writesRow_setStaff (fun _ => rfl)
  rw [Protocol.wp_monad_bind]
  refine h.wp_change (fun a b => Good none ((.staff x, .exclusive) :: held) a b ∧ ActiveRow x b ∧
    Unexpired now x a b) (fun a b hab => ?_) hrow.rows ?_ ?_ ?_
  · rw [show a.staff.find? x = b.staff.find? x from hab]
  · rintro a b hinv rfl hp
    have hactive : ActiveRow x (b.setStaff x
        (fun r => { r with failedPasswordAttempts := 0, lockedUntil := none, updatedAt := now })) := by
      intro r' hr'
      have hfind := (Table.find?_modified (f := fun r : StaffRow =>
        { r with failedPasswordAttempts := 0, lockedUntil := none, updatedAt := now }) (fun _ => rfl) x x
        (t := b.staff)).symm.trans hr'
      rw [if_pos rfl] at hfind
      obtain ⟨r, hr, rfl⟩ := Option.map_eq_some_iff.mp hfind
      rw [hr] at hp
      simp only [Option.any_some, Bool.and_eq_true, decide_eq_true_eq] at hp
      exact hp.1.2
    have hgood : Good (some x) ((.staff x, .exclusive) :: held) b (b.setStaff x
        (fun r => { r with failedPasswordAttempts := 0, lockedUntil := none, updatedAt := now })) :=
      (Good.refl hinv).setStaff (fun _ => rfl) (fun _ hd => hd)
    exact ⟨hgood.settled hactive.closedIfDisabled, hactive, fun _ _ hr _ _ _ => hr⟩
  · intro db₁ henv₁ h₁ hp
    rw [if_neg Bool.false_ne_true, Protocol.wp_pure]
    exact commits_untouched h₁ (fun _ _ => trivial)
  · intro db₁ henv₁ hp h₁
    rw [if_pos rfl]
    exact wp_openChallenge h₁ List.mem_cons_self

theorem wp_startLoginChallenge {passwordHash : Text} {c : ChallengeId} {ttlMs : ℕ} (hok : db.Ok) :
    staffProtocol.wp (StaffTx.startLoginChallenge now x passwordHash c ttlMs)
      (staffProtocol.Commits (StaffPost (.startLoginChallenge now x passwordHash c ttlMs))) [] id db := by
  unfold StaffTx.startLoginChallenge
  rw [Protocol.wp_monad_bind]
  refine Protocol.wp_selectFor (fun db₁ henv₁ _ => ?_) (fun db₁ row henv₁ _ => ?_)
  · exact wp_claimLogin ((working_start hok).env henv₁)
  · exact wp_claimLogin (((working_start hok).env henv₁).lock (.staff x) .exclusive)

/-! ### An account that is written -/

/-- An account, found by its login, is written and what was issued under it closed. -/
theorem wp_changeAccount (call : StaffCall) {login : Text} {g : StaffRow → StaffRow} (hok : db.Ok)
    (hid : ∀ r, (g r).id = r.id)
    (hstatus : ∀ r, r.status = .disabled → (g r).status = .disabled)
    (hwrote : ∀ r, lowerLogin r.login = lowerLogin login → call.Wrote (g r))
    (hupdated : ∀ r, call.Wrote r → r.updatedAt = call.now)
    (hkeeps : ∀ sessions x, call.Keeps sessions x none) :
    staffProtocol.wp (StaffTx.changeAccount call.now login g) (staffProtocol.Commits (StaffPost call)) [] id
      db := by
  unfold StaffTx.changeAccount
  rw [Protocol.wp_monad_bind]
  refine (working_start hok).wp_changeKey
    (fun i a b => Good (some i) [(.staff i, .exclusive)] a b ∧ Changed call i none b) (fun i a b hab => ?_)
    (fun i => (writesRow_setStaff hid).rows) ?_ ?_ ?_
  · rw [show a.staff.find? i = b.staff.find? i from hab]
  · rintro i a b hinv rfl hp
    refine ⟨Good.setStaff (Good.refl hinv) hid hstatus, ?_, hkeeps _ _⟩
    cases hr : b.staff.find? i with
    | none =>
      rw [hr] at hp
      cases hp
    | some r =>
      rw [hr] at hp
      refine ⟨g r, ?_, hwrote r (of_decide_eq_true hp)⟩
      refine (Table.find?_modified hid i i).trans ?_
      rw [if_pos rfl, hr]
      rfl
  · intro db₁ henv₁ h₁
    rw [Protocol.wp_pure]
    exact commits_untouched h₁ (fun _ _ => trivial)
  · intro i db₀ db₁ henv₀ hfind henv₁ h₁
    exact wp_invalidateIssued call hupdated (.inl rfl) h₁ List.mem_cons_self

/-- The session of the request. -/
def OwnSession (token : Text) (ctx : StaffContext) (b : StaffDb) : Prop :=
  ∃ r, b.sessions.find? ctx.sessionId = some r ∧ r.tokenHash = token ∧ r.staffId = ctx.staffId

theorem wp_touchSession {idleMs : ℕ} {token : Text} {fn : StaffContext → StaffTx StaffReply}
    (h : Protocol.Tracks staffRows (fun a b => b = a) held writes db)
    (hfn : ∀ ctx held writes db,
      Protocol.Tracks staffRows (fun a b => Good none held a b ∧ OwnSession token ctx b) held writes db →
      staffProtocol.wp (fn ctx) (staffProtocol.Commits (StaffPost call)) held writes db) :
    staffProtocol.wp (StaffTx.touchSession now idleMs token fn) (staffProtocol.Commits (StaffPost call)) held
      writes db := by
  unfold StaffTx.touchSession
  have hrow : ∀ i : StaffSessionId, WritesRow (.session i)
      (StaffDb.setSession i (fun r => { r with lastSeenAt := now })) :=
    fun i => writesRow_setSession (fun _ => rfl)
  rw [Protocol.wp_monad_bind]
  refine h.wp_changeKey (fun ctx a b => Good none ((.session ctx.sessionId, .exclusive) :: held) a b ∧
    OwnSession token ctx b) (fun ctx a b hab => ?_) (fun ctx => (hrow ctx.sessionId).rows) ?_ ?_ ?_
  · rw [show a.sessions.find? ctx.sessionId = b.sessions.find? ctx.sessionId from hab]
  · rintro ctx a b hinv rfl hp
    refine ⟨((Good.refl hinv).held_mono fun _ hmem => absurd hmem List.not_mem_nil).narrows
      (hrow ctx.sessionId)
      (narrows_setSession (fun _ => rfl) (fun _ => ⟨rfl, rfl, fun ho => ho⟩)), ?_⟩
    cases hr : b.sessions.find? ctx.sessionId with
    | none =>
      rw [hr] at hp
      cases hp
    | some r =>
      rw [hr] at hp
      simp only [Option.any_some, Bool.and_eq_true, decide_eq_true_eq] at hp
      refine ⟨{ r with lastSeenAt := now }, ?_, hp.1.1, hp.1.2⟩
      rw [find?_setSession (f := fun r : StaffSessionRow => { r with lastSeenAt := now }) (fun _ => rfl),
        if_pos rfl, hr]
      rfl
  · intro db₁ henv₁ h₁
    rw [Protocol.wp_pure]
    exact commits_untouched h₁ (fun _ _ => trivial)
  · intro ctx db₀ db₁ henv₀ hfind henv₁ h₁
    exact hfn ctx _ _ _ h₁

/-- **A request of the admin pages**: its work runs under a session that it has touched. -/
theorem wp_runAsStaff {idleMs : ℕ} {token : Text} {lockStaff : Bool} {fn : StaffContext → StaffTx StaffReply}
    (hok : db.Ok) (hfn : ∀ ctx held writes db,
      Protocol.Tracks staffRows (fun a b => Good none held a b ∧ OwnSession token ctx b) held writes db →
      staffProtocol.wp (fn ctx) (staffProtocol.Commits (StaffPost call)) held writes db) :
    staffProtocol.wp (StaffTx.runAsStaff now idleMs token lockStaff fn)
      (staffProtocol.Commits (StaffPost call)) [] id db := by
  unfold StaffTx.runAsStaff
  split
  · rw [Protocol.wp_monad_bind]
    intro db₁ henv₁
    rw [Protocol.wp_ret]
    have h := (working_start hok).env henv₁
    split
    · rename_i staffId _
      rw [Protocol.wp_monad_bind]
      refine Protocol.wp_selectFor (fun db₂ henv₂ _ => ?_) (fun db₂ row henv₂ _ => ?_)
      · exact wp_touchSession (h.env henv₂) hfn
      · exact wp_touchSession ((h.env henv₂).lock (.staff staffId) .exclusive) hfn
    · rw [Protocol.wp_pure]
      exact commits_untouched h (fun _ _ => trivial)
  · exact wp_touchSession (working_start hok) hfn

/-- The member's own password is written, and what was issued under the account closed but for the session
that changes it. -/
theorem wp_applyStaffPasswordChange {idleMs : ℕ} {token seen passwordHash : Text} {ctx : StaffContext}
    (h : Protocol.Tracks staffRows (fun a b => Good none held a b ∧ OwnSession token ctx b) held writes db) :
    staffProtocol.wp (StaffTx.applyStaffPasswordChange now ctx.staffId ctx.sessionId seen passwordHash)
      (staffProtocol.Commits (StaffPost (.changePassword now idleMs token seen passwordHash))) held writes
      db := by
  unfold StaffTx.applyStaffPasswordChange
  have hid : ∀ r : StaffRow, (r.withPassword now passwordHash).id = r.id := fun _ => rfl
  rw [Protocol.wp_monad_bind]
  refine h.wp_change (fun a b => Good (some ctx.staffId) ((.staff ctx.staffId, .exclusive) :: held) a b ∧
    Changed (.changePassword now idleMs token seen passwordHash) ctx.staffId (some ctx.sessionId) b)
    (fun a b hab => ?_) (writesRow_setStaff hid).rows ?_ ?_ ?_
  · rw [show a.staff.find? ctx.staffId = b.staff.find? ctx.staffId from hab]
  · rintro a b hinv ⟨hgood, r, hr, htoken, hstaff⟩ hp
    refine ⟨hgood.setStaff hid (fun _ hd => hd), ?_, ctx.sessionId, r, rfl, hr, htoken, hstaff⟩
    cases hrow : b.staff.find? ctx.staffId with
    | none =>
      rw [hrow] at hp
      cases hp
    | some row =>
      rw [hrow] at hp
      simp only [Option.any_some, Bool.and_eq_true, decide_eq_true_eq] at hp
      refine ⟨row.withPassword now passwordHash, ?_, hp.1.2, rfl, rfl⟩
      refine (Table.find?_modified (f := StaffRow.withPassword now passwordHash) hid ctx.staffId
        ctx.staffId).trans ?_
      rw [if_pos rfl, hrow]
      rfl
  · intro db₁ henv₁ h₁ hp
    rw [if_neg Bool.false_ne_true, Protocol.wp_monad_bind]
    intro db₂ henv₂
    rw [Protocol.wp_ret, Protocol.wp_pure]
    have hlocked : ∀ (lockedUntil : Option ℕ) (a b : StaffDb),
        StaffPost (.changePassword now idleMs token seen passwordHash) a b
          ((lockedUntil.map StaffReply.locked).getD .stateChanged) := by
      intro lockedUntil a b
      cases lockedUntil <;> trivial
    exact commits_good ((h₁.env henv₂).mono fun _ _ _ hE => hE.1) (hlocked _)
  · intro db₁ henv₁ hp h₁
    rw [if_pos rfl]
    exact wp_invalidateIssued (.changePassword now idleMs token seen passwordHash) (fun _ hr => hr.2.2)
      (.inr fun _ hr => hr.1) h₁ List.mem_cons_self

theorem wp_revokeSession {idleMs : ℕ} {i : StaffSessionId} {byStaffId : StaffId}
    (h : Protocol.Tracks staffRows (Good none held) held writes db) :
    staffProtocol.wp (StaffTx.revokeStaffSession now idleMs i byStaffId)
      (staffProtocol.Commits (StaffPost call)) held writes db := by
  refine wp_narrowingKey (fun revoked => .revoked revoked) h (fun _ a b hab => ?_)
    (fun _ => writesRow_setSession (fun _ => rfl)) (fun _ b => ?_) (fun _ _ _ => trivial)
  · rw [show a.sessions.find? i = b.sessions.find? i from hab]
  · exact narrows_setSession (fun _ => rfl) (fun _ => ⟨rfl, rfl, fun _ => rfl⟩)

theorem wp_endSession {i : StaffSessionId} {byStaffId : StaffId}
    (h : Protocol.Tracks staffRows (Good none held) held writes db) :
    staffProtocol.wp (StaffTx.endStaffSession now i byStaffId)
      (staffProtocol.Commits (StaffPost call)) held writes db := by
  refine wp_narrowing (fun _ => .loggedOut) h (fun a b hab => ?_)
    (writesRow_setSession (fun _ => rfl)) (fun b => ?_) (fun _ _ _ => trivial)
  · rw [show a.sessions.find? i = b.sessions.find? i from hab]
  · exact narrows_setSession (fun _ => rfl) (fun _ => ⟨rfl, rfl, fun _ => rfl⟩)

end Programs

end Binarius
