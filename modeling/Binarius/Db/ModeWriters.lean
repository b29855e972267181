import Mathlib.Tactic
import Binarius.Db.Accounts.Postback
import Binarius.Db.ModeTables

/-!
# Db.ModeWriters — the writers that leave the modes, the outcomes and the sessions
(packages/db/src: oauth-ops.ts, user-ops.ts, postback-ops.ts, trade-intent-ops.ts)

The logins, the confirmations, the postbacks and the halts write users, accounts and deposits, which the
trading mode reads: each write keeps the invariant where it stands.

* `Unswitched`: what such a transaction has done; `Unswitching`: in the middle of it.
* `Unswitching.wp_change`, `Unswitching.wp_changeAll`, `Unswitching.frame`: its statements.
* `quiet_linkBrokerAccount`, `quiet_confirmBrokerAccount`, `quiet_recordPostback` and the others.
-/

namespace Binarius

open Lib

namespace ModeTables

/-- No mode of a user, no outcome of a deposit and no session is written; a new user is in demo. -/
structure Leaves (t t' : ModeTables) : Prop where
  sessions : t'.session = t.session
  outcomes : ∀ k, t'.outcome k = t.outcome k
  modes : ∀ id u', t'.user id = some u' →
    (∃ u, t.user id = some u ∧ u'.tradingMode = u.tradingMode) ∨ (t.user id = none ∧ u'.tradingMode = .demo)

/-- What a writer that leaves them has done, and the users it knows to be there. -/
structure Unswitched (known : List UserId) (held : List (AccountsLock × LockMode)) (t t' : ModeTables) :
    Prop where
  guarantee : modeTablesProtocol.Guarantee held t t'
  known : ∀ uid ∈ known, ∃ u, t'.user uid = some u
  leaves : t.Leaves t'

variable {known known' : List UserId} {held held' : List (AccountsLock × LockMode)} {t t' t'' : ModeTables}

theorem Leaves.refl (t : ModeTables) : t.Leaves t := ⟨rfl, fun _ => rfl, fun _ u h => .inl ⟨u, h, rfl⟩⟩

theorem Unswitched.refl (hok : t.Ok) : Unswitched [] held t t :=
  ⟨Protocol.Guarantee.refl hok, fun _ hmem => absurd hmem List.not_mem_nil, .refl t⟩

theorem Unswitched.held_mono (h : Unswitched known held t t') (hsub : ∀ p ∈ held, p ∈ held') :
    Unswitched known held' t t' :=
  ⟨h.guarantee.held_mono hsub, h.known, h.leaves⟩

theorem Unswitched.trans (h : Unswitched known held t t') (h' : Unswitched known' held t' t'') :
    Unswitched (known' ++ known) held t t'' := by
  have hgrows : t'.Grows t'' := h'.guarantee.rely
  refine ⟨h.guarantee.trans h'.guarantee, fun uid hmem => ?_,
    ⟨h'.leaves.sessions.trans h.leaves.sessions, fun k => (h'.leaves.outcomes k).trans
      (h.leaves.outcomes k),
      fun id u'' hu'' => ?_⟩⟩
  · rcases List.mem_append.mp hmem with hmem | hmem
    · exact h'.known uid hmem
    · obtain ⟨u, hu⟩ := h.known uid hmem
      obtain ⟨u', hu', -⟩ := hgrows.users uid u hu
      exact ⟨u', hu'⟩
  · rcases h'.leaves.modes id u'' hu'' with ⟨u', hu', hmode⟩ | ⟨hnone, hmode⟩
    · rcases h.leaves.modes id u' hu' with ⟨u, hu, hmode'⟩ | ⟨hnone, hmode'⟩
      · exact .inl ⟨u, hu, hmode.trans hmode'⟩
      · exact .inr ⟨hnone, hmode.trans hmode'⟩
    · refine .inr ⟨?_, hmode⟩
      cases hu : t.user id with
      | none => rfl
      | some u =>
        obtain ⟨u', hu', -⟩ := h.guarantee.rely.users id u hu
        rw [hnone] at hu'
        cases hu'

/-! ### The writes -/

theorem leaves_of_deposits (huser : t'.user = t.user) (hsession : t'.session = t.session)
    (houtcome : ∀ k, t'.outcome k = t.outcome k) : t.Leaves t' := by
  refine ⟨hsession, houtcome, fun id u hu => .inl ⟨u, ?_, rfl⟩⟩
  rw [← huser]
  exact hu

theorem unswitched_addUser {id : UserId} {row : ModeUser} (hok : t.Ok) (hnone : t.user id = none)
    (hdemo : row.tradingMode = .demo) (hlock : (.user id, .exclusive) ∈ held) :
    Unswitched [id] held t (t.addUser id row) := by
  refine ⟨guarantee_addUser hok hnone hlock, fun j hj => ?_, rfl, fun _ => rfl, fun j u hu => ?_⟩
  · obtain rfl := List.mem_singleton.mp hj
    exact ⟨row, (insertKey_free hnone _).trans (if_pos rfl)⟩
  · have hu : insertKey id row t.user j = some u := hu
    rw [insertKey_free hnone] at hu
    split at hu
    · rename_i hj
      obtain rfl := Option.some.inj hu
      exact .inr ⟨hj ▸ hnone, hdemo⟩
    · exact .inl ⟨u, hu, rfl⟩

theorem unswitched_setStatus {id : UserId} {status : UserStatus} (hok : t.Ok)
    (hlock : (.user id, .exclusive) ∈ held) :
    Unswitched [] held t (t.setUser id (fun u => { u with status := status })) := by
  refine ⟨guarantee_setUser hok (fun _ => rfl) (fun _ => rfl) hlock,
    fun _ hmem => absurd hmem List.not_mem_nil, rfl, fun _ => rfl, fun j u hu => ?_⟩
  obtain ⟨u₀, hu₀, rfl | rfl⟩ := of_modifyKey hu
  · exact .inl ⟨_, hu₀, rfl⟩
  · exact .inl ⟨u₀, hu₀, rfl⟩

theorem unswitched_setAccount {id : AccountId} {f : ModeAccount → ModeAccount} (hok : t.Ok)
    (hf : ∀ a, (f a).userId = a.userId) (hlock : (.account id, .exclusive) ∈ held) :
    Unswitched [] held t (t.setAccount id f) :=
  ⟨guarantee_setAccount hok hf hlock, fun _ hmem => absurd hmem List.not_mem_nil,
    leaves_of_deposits rfl rfl fun _ => rfl⟩

theorem unswitched_addAccount {id : AccountId} {row : ModeAccount} (hok : t.Ok) (hnone : t.account id = none)
    (huser : ∃ u, t.user row.userId = some u) (hlock : (.account id, .exclusive) ∈ held) :
    Unswitched [] held t (t.addAccount id row) :=
  ⟨guarantee_addAccount hok hnone huser hlock, fun _ hmem => absurd hmem List.not_mem_nil,
    leaves_of_deposits rfl rfl fun _ => rfl⟩

/-- A deposit is attributed where it had no owner. -/
theorem unswitched_attach {key : DepositKey} {o : UserId × AccountId} (hok : t.Ok)
    (hfree : ∀ d, t.deposit key = some d → d.owner = none) (hlock : (.deposit key, .exclusive) ∈ held) :
    Unswitched [] held t (t.setDeposit key (fun d => { d with owner := some o })) := by
  refine ⟨guarantee_setDeposit hok (fun d hd => ⟨fun o ho => ?_, fun _ ho => ho⟩) hlock,
    fun _ hmem => absurd hmem List.not_mem_nil, leaves_of_deposits rfl rfl fun k => ?_⟩
  · rw [hfree d hd] at ho
    cases ho
  · show (modifyKey key _ t.deposit k).bind _ = (t.deposit k).bind _
    unfold modifyKey
    split
    · cases t.deposit k <;> rfl
    · rfl

theorem unswitched_addDeposit {key : DepositKey} {row : ModeDeposit} (hok : t.Ok)
    (hnone : t.deposit key = none)
    (hrow : row.modeSwitch = none) (hlock : (.deposit key, .exclusive) ∈ held) :
    Unswitched [] held t (t.addDeposit key row) := by
  refine ⟨guarantee_addDeposit hok hnone hlock, fun _ hmem => absurd hmem List.not_mem_nil,
    leaves_of_deposits rfl rfl fun k => ?_⟩
  show (if key = k then some row else t.deposit k).bind _ = (t.deposit k).bind _
  split
  · rename_i hk
    rw [← hk, hnone]
    exact hrow
  · rfl

end ModeTables

section Statements

open AccountsTx TxProg ModeTables

variable {held : List (AccountsLock × LockMode)} {db db' : AccountsDb} {writes : AccountsDb → AccountsDb}
  {known : List UserId}

/-- A writer that leaves the modes, the outcomes and the sessions, in the middle of its transaction. -/
abbrev Unswitching (known : List UserId) (held : List (AccountsLock × LockMode)) (writes : AccountsDb →
    AccountsDb)
    (db : AccountsDb) : Prop :=
  Protocol.Tracks modeView (fun a b => Unswitched known held a.modeTables b.modeTables) held writes db

theorem Unswitching.start (hok : modeProtocol.inv db) : Unswitching [] [] id db :=
  Protocol.Tracks.start hok (fun _ hok => .refl hok)

theorem Unswitching.lock (h : Unswitching known held writes db) (l : AccountsLock) (mode : LockMode) :
    Unswitching known ((l, mode) :: held) writes db :=
  (Protocol.Tracks.lock h l mode).mono fun _ _ _ hE => hE.held_mono fun _ hmem => List.mem_cons_of_mem _
    hmem

/-- A users row read under its lock is there at the commit. -/
theorem Unswitching.know {uid : UserId} {mode : LockMode} (h : Unswitching known held writes db)
    (hlock : (.user uid, mode) ∈ held) (huser : ∃ u, (writes db).modeTables.user uid = some u) :
    Unswitching (uid :: known) held writes db := by
  refine (Protocol.Tracks.learn_row (fun b => ∃ u, b.modeTables.user uid = some u) h hlock huser ?_).mono ?_
  · rintro a b hab ⟨u, hu⟩
    exact ⟨u, Eq.trans hab hu⟩
  · rintro a b _ ⟨hE, hknown⟩
    refine ⟨hE.guarantee, fun j hj => ?_, hE.leaves⟩
    rcases List.mem_cons.mp hj with rfl | hj
    · exact hknown
    · exact hE.known j hj

/-- **A change under its row's lock.** -/
theorem Unswitching.wp_change (known' : List UserId) {l : AccountsLock} {pred : AccountsDb → Bool}
    {f : AccountsDb → AccountsDb}
    {g : ModeTables → ModeTables}
    {Q : Bool → List (AccountsLock × LockMode) → (AccountsDb → AccountsDb) → AccountsDb → Prop}
    (h : Unswitching known held writes db) (hpred : ∀ a b, modeView.row l a b → pred b = pred a)
    (hview : ∀ db, (f db).modeTables = g db.modeTables) (hlocal : modeRows.Local g)
    (hstep : ∀ b : AccountsDb, b.modeTables.Ok → (∀ uid ∈ known, ∃ u, b.modeTables.user uid = some u) →
      pred b = true → Unswitched known' ((l, .exclusive) :: held) b.modeTables (g b.modeTables))
    (hfalse : ∀ db', Unswitching known held writes db' → Q false held writes db')
    (htrue : ∀ held' writes' db', (l, .exclusive) ∈ held' → Unswitching (known' ++ known) held' writes' db' →
      Q true held' writes' db') :
    modeProtocol.wp (.change l pred f : AccountsTx Bool) Q held writes db := by
  refine Protocol.Tracks.wp_change
    (fun a b => Unswitched (known' ++ known) ((l, .exclusive) :: held) a.modeTables b.modeTables) h hpred
    (hlocal.comap hview) (fun a b _ hE hp => ?_) (fun db' _ h' _ => hfalse db' h')
    (fun db' _ _ h' => htrue _ _ db' List.mem_cons_self h')
  rw [hview]
  exact (hE.held_mono fun _ hmem => List.mem_cons_of_mem _ hmem).trans
    (hstep b hE.guarantee.inv hE.known hp)

/-- **A new row under its two keys.** -/
theorem Unswitching.wp_insertNew (known' : List UserId) {arbiter pkey : AccountsLock}
    {free fresh : AccountsDb → Bool}
    {f : AccountsDb → AccountsDb} {e : AccountsError} {g : ModeTables → ModeTables}
    {Q : Bool → List (AccountsLock × LockMode) → (AccountsDb → AccountsDb) → AccountsDb → Prop}
    (h : Unswitching known held writes db) (hfresh : ∀ a b, modeView.row pkey a b → fresh b = fresh a)
    (hview : ∀ db, (f db).modeTables = g db.modeTables) (hlocal : modeRows.Local g)
    (hstep : ∀ b : AccountsDb, b.modeTables.Ok → (∀ uid ∈ known, ∃ u, b.modeTables.user uid = some u) →
      fresh b = true →
        Unswitched known' ((pkey, .exclusive) :: (arbiter, .exclusive) :: held) b.modeTables (g b.modeTables))
    (hconflict : ∀ db', Unswitching known held writes db' → Q false held writes db')
    (hnew : ∀ held' writes' db', Unswitching (known' ++ known) held' writes' db' → Q true held' writes' db') :
    modeProtocol.wp (.insertNew arbiter pkey free fresh f e : AccountsTx Bool) Q held writes db := by
  refine Protocol.Tracks.wp_insertNew (fun a b => Unswitched (known' ++ known)
    ((pkey, .exclusive) :: (arbiter, .exclusive) :: held) a.modeTables b.modeTables) h hfresh
    (hlocal.comap hview) (fun a b _ hE hp => ?_) (fun db' _ h' => hconflict db' h')
    (fun db' _ h' => hnew _ _ db' h')
  rw [hview]
  exact (hE.held_mono fun _ hmem => List.mem_cons_of_mem _ (List.mem_cons_of_mem _ hmem)).trans
    (hstep b hE.guarantee.inv hE.known hp)

/-- **A program that leaves the tables.** -/
theorem Unswitching.frame {α : Type} {p : AccountsTx α}
    {Q : α → List (AccountsLock × LockMode) → (AccountsDb → AccountsDb) → AccountsDb → Prop}
    (hp : p.Frames AccountsDb.modeTables) (h : Unswitching known held writes db)
    (hQ : ∀ a held' writes' db', Unswitching known held' writes' db' → Q a held' writes' db') :
    modeProtocol.wp p Q held writes db := by
  refine Protocol.Tracks.frame (E := Unswitched known held) hp h (fun a held' writes' db' hsub _ h' => ?_)
  exact hQ a held' writes' db' (h'.mono fun _ _ _ hE => hE.held_mono hsub)

/-- A user read under its lock. -/
theorem Unswitching.wp_selectUser {find : AccountsDb → Option UserId}
    {Q : Option UserRow → List (AccountsLock × LockMode) → (AccountsDb → AccountsDb) → AccountsDb → Prop}
    (h : Unswitching known held writes db) (hnone : ∀ db', Unswitching known held writes db' → Q none held writes db')
    (hsome : ∀ u held' db', Unswitching (u.id :: known) held' writes db' → Q (some u) held' writes db') :
    modeProtocol.wp (.selectForKey find AccountsLock.user .exclusive (fun id db => db.users.find? id) :
      AccountsTx (Option UserRow)) Q held writes db := by
  refine Protocol.wp_selectForKey (fun db' henv _ => hnone db' (h.env henv))
    (fun db₁ db' i henv₁ _ henv₂ _ => hnone db' (h.env (henv₁.trans henv₂)))
    (fun db₁ db' i u henv₁ _ henv₂ hu => ?_)
  obtain rfl : u.id = i := Table.key_of_find? hu
  have h' := Unswitching.lock (h.env (henv₁.trans henv₂)) (.user u.id) .exclusive
  refine hsome u _ db' (Unswitching.know h' List.mem_cons_self ⟨u.modeUser, ?_⟩)
  show Option.map UserRow.modeUser ((writes db').users.find? u.id) = _
  rw [hu]
  rfl

/-- What the commits of these writers do. -/
abbrev CommitsLeaves {α : Type} : α → List (AccountsLock × LockMode) → (AccountsDb → AccountsDb) →
    AccountsDb → Prop :=
  modeProtocol.Commits (fun a b _ => a.modeTables.Leaves b.modeTables)

theorem Unswitching.commits {α : Type} {a : α} (h : Unswitching known held writes db) :
    modeProtocol.wp (pure a : AccountsTx α) CommitsLeaves held writes db :=
  Protocol.wp_pure.mpr (Protocol.Tracks.commits h fun _ _ _ hE => ⟨hE.guarantee.comap, hE.leaves⟩)

/-- A program that leaves the tables, and is the last of its transaction. -/
theorem Unswitching.frame_commits {α : Type} {p : AccountsTx α} (hp : p.Frames AccountsDb.modeTables)
    (h : Unswitching known held writes db) : modeProtocol.wp p CommitsLeaves held writes db :=
  h.frame hp (fun _ _ _ _ h' => Protocol.wp_pure.mp (Unswitching.commits h'))

end Statements

/-! ## The bonuses do not show -/

section Bonuses

open AccountsTx TxProg

variable (now : UnixMs)

theorem applyBonus_frames (code : String) (userId : UserId) (reference : BonusReference) :
    (applyBonus now code userId reference).Frames AccountsDb.modeTables := by
  have hresolve : (resolveActiveRule now code).Frames AccountsDb.modeTables := by
    refine Frames.bind (frames_select _) (fun rule => ?_)
    cases rule with
    | none => trivial
    | some rule =>
      dsimp only
      split
      · trivial
      · trivial
  refine Frames.bind hresolve (fun found => ?_)
  cases found with
  | none => trivial
  | some found =>
    obtain ⟨rule, params⟩ := found
    dsimp only
    split
    · trivial
    · split
      · trivial
      · refine Frames.bind (frames_change (fun _ => by rfl) _ _) (fun inserted => ?_)
        split
        · refine Frames.bind (frames_change (fun db => ?_) _ _) (fun _ => trivial)
          exact AccountsDb.modeTables_updateUser_other (fun _ => by rfl) (fun _ => by rfl) db
        · trivial

theorem grantLinkBonus_frames (userId : UserId) (account : LinkedAccountRow) :
    (grantLinkBonus now userId account).Frames AccountsDb.modeTables := by
  unfold grantLinkBonus
  split
  · refine Frames.bind (applyBonus_frames now _ _ _) (fun grant => ?_)
    split
    · trivial
    · trivial
    · trivial
  · trivial

theorem lockReferralInviter_frames (userId : UserId) :
    (lockReferralInviter userId).Frames AccountsDb.modeTables := by
  refine Frames.bind (frames_select _) (fun referral => ?_)
  cases referral with
  | none => trivial
  | some referral =>
    refine Frames.bind (frames_select _) (fun paid => ?_)
    split
    · trivial
    · refine Frames.bind (frames_selectFor _ _ _) (fun inviter => ?_)
      cases inviter with
      | none => trivial
      | some inviter => trivial

theorem grantReferralReward_frames (referral : ReferralInviter) (account : LinkedAccountRow) :
    (grantReferralReward now referral account).Frames AccountsDb.modeTables := by
  unfold grantReferralReward
  split
  · split
    · trivial
    · trivial
    · trivial
    · refine Frames.bind (applyBonus_frames now _ _ _) (fun grant => ?_)
      split
      · trivial
      · trivial
      · trivial
  · trivial

end Bonuses

/-! ## The writers -/

section Writers

open AccountsTx TxProg ModeTables

variable {held : List (AccountsLock × LockMode)} {db : AccountsDb} {writes : AccountsDb → AccountsDb}
  {known : List UserId} {now : UnixMs}

/-- The deposits of a trader are attributed, each under its lock. -/
theorem Unswitching.wp_attach {id : AccountId} {userId : UserId} {trader : List Char}
    {Q : List DepositKey → List (AccountsLock × LockMode) → (AccountsDb → AccountsDb) → AccountsDb → Prop}
    (h : Unswitching known held writes db)
    (hQ : ∀ keys held' writes' db', Unswitching known held' writes' db' → Q keys held' writes' db') :
    modeProtocol.wp (attachDepositsToAccount id userId trader) Q held writes db := by
  intro db₁ henv₁
  refine Protocol.Tracks.wp_changeAll (fun written _ a b =>
      Unswitched known (written.map (fun k => (.deposit k, .exclusive)) ++ held) a.modeTables b.modeTables)
    (fun _ => True) (h.env henv₁) (fun _ _ => trivial) (fun k a b hab => ?_)
    (fun k => (local_setDeposit k _).comap fun db =>
      AccountsDb.modeTables_updateDeposit (g := fun d => { d with owner := some (userId, id) })
        (fun _ => by rfl) (fun _ => by rfl) db)
    (fun written seen k a b _ hE hp => ?_) (fun _ _ _ _ _ _ _ _ _ _ _ hE => hE)
    (fun keys held' writes' db' hsub hlocks _ h' => hQ keys held' writes' db' (h'.mono fun _ _ _ hE => ?_))
  · -- the predicate is about columns that the tables show
    have hany := fun x => AccountsDb.any_modeDeposit (fun d => d.source = .binodex && d.brokerUserId =
      trader &&
      d.owner.isNone) x k
    exact (hany b).symm.trans ((congrArg (Option.any _) hab).trans (hany a))
  · rw [AccountsDb.modeTables_updateDeposit (g := fun d => { d with owner := some (userId, id) })
      (fun _ => by rfl) (fun _ => by rfl)]
    have hlocked : Unswitched known ((.deposit k, .exclusive) :: written.map (fun k => (.deposit k, .exclusive)) ++
        held) a.modeTables b.modeTables := hE.held_mono fun _ hmem => List.mem_cons_of_mem _ hmem
    refine (hlocked.trans (unswitched_attach hE.guarantee.inv (fun d hd => ?_) List.mem_cons_self)).held_mono
      fun p hp => ?_
    · obtain ⟨deposit, hdeposit, rfl⟩ := Option.map_eq_some_iff.mp hd
      rw [hdeposit] at hp
      simp only [Option.any_some, Bool.and_eq_true] at hp
      exact Option.isNone_iff_eq_none.mp hp.2
    · rw [List.map_append, List.append_assoc]
      simp only [List.map_cons, List.map_nil, List.cons_append, List.nil_append, List.mem_append,
        List.mem_cons]
        at hp ⊢
      tauto
  · refine hE.held_mono fun p hp => ?_
    rcases List.mem_append.mp hp with hp | hp
    · obtain ⟨k, hk, rfl⟩ := List.mem_map.mp hp
      exact hlocks k hk
    · exact hsub p hp

/-- The credits of an activation, to the end of the transaction. -/
theorem Unswitching.wp_credits {α : Type} {f : LinkBonusGrant → ReferralRewardResult → α} {id : AccountId}
    {userId : UserId} {trader : List Char} {account : LinkedAccountRow} {inviter : ReferralInviter}
    (h : Unswitching known held writes db) :
    modeProtocol.wp (do
      let _ ← attachDepositsToAccount id userId trader
      let grant ← grantLinkBonus now userId account
      let referral ← grantReferralReward now inviter account
      return f grant referral) CommitsLeaves held writes db := by
  rw [Protocol.wp_monad_bind]
  refine h.wp_attach (fun _ held₁ writes₁ db₁ h₁ => Unswitching.frame_commits ?_ h₁)
  refine Frames.bind (grantLinkBonus_frames now _ _) (fun grant => ?_)
  exact Frames.bind (grantReferralReward_frames now _ _) (fun _ => trivial)

theorem Unswitching.wp_creditActivation {activate : Bool} {userId : UserId} {account : LinkedAccountRow}
    {inviter : ReferralInviter} {Q : Option LinkBonusGrant × Option ReferralRewardResult →
      List (AccountsLock × LockMode) → (AccountsDb → AccountsDb) → AccountsDb → Prop}
    (h : Unswitching known held writes db)
    (hQ : ∀ credited held' writes' db', Unswitching known held' writes' db' → Q credited held' writes' db') :
    modeProtocol.wp (creditActivation now activate userId account inviter) Q held writes db := by
  unfold creditActivation
  split
  · rw [Protocol.wp_monad_bind]
    refine h.wp_attach (fun _ held₁ writes₁ db₁ h₁ => Unswitching.frame ?_ h₁ hQ)
    refine Frames.bind (grantLinkBonus_frames now _ _) (fun grant => ?_)
    exact Frames.bind (grantReferralReward_frames now _ _) (fun _ => trivial)
  · split
    · refine Unswitching.frame ?_ h hQ
      exact Frames.bind (grantReferralReward_frames now _ _) (fun _ => trivial)
    · exact hQ (none, none) held writes db h

/-- The user of a login is there. -/
theorem Unswitching.wp_upsertUser {telegramUserId : ℕ} {newUserId : UserId}
    {Q : Option UserId → List (AccountsLock × LockMode) → (AccountsDb → AccountsDb) → AccountsDb → Prop}
    (h : Unswitching known held writes db)
    (hblocked : ∀ known held' writes' db', Unswitching known held' writes' db' → Q none held' writes' db')
    (hsome : ∀ userId held' writes' db', Unswitching (userId :: known) held' writes' db' →
      Q (some userId) held' writes' db') :
    modeProtocol.wp (upsertUser telegramUserId newUserId) Q held writes db := by
  have hread : ∀ (u : UserRow) held' db', Unswitching (u.id :: known) held' writes db' →
      modeProtocol.wp (pure (if u.status = .blocked then none else some u.id) : AccountsTx
        (Option UserId)) Q
        held' writes db' := by
    rintro u held' db' h'
    rw [Protocol.wp_pure]
    split
    · exact hblocked _ _ _ _ h'
    · exact hsome _ _ _ _ h'
  unfold upsertUser
  rw [Protocol.wp_monad_bind]
  refine h.wp_selectUser (fun db₁ h₁ => ?_) (fun u held₁ db₁ h₁ => hread u held₁ db₁ h₁)
  dsimp only
  rw [Protocol.wp_monad_bind]
  refine Unswitching.wp_insertNew [newUserId] h₁ (fun a b hab => ?_)
    (AccountsDb.modeTables_insertUser _) (local_addUser _ _) (fun b hok _ hfresh => ?_)
    (fun db₂ h₂ => ?_) (fun held₂ writes₂ db₂ h₂ => ?_)
  · have hnone : ∀ x : AccountsDb, (x.users.find? newUserId).isNone =
      (x.modeTables.user newUserId).isNone :=
      fun x => Option.isNone_map.symm
    rw [hnone, hnone]
    exact congrArg Option.isNone hab
  · refine unswitched_addUser hok ?_ rfl List.mem_cons_self
    show Option.map _ (b.users.find? newUserId) = none
    rw [Option.isNone_iff_eq_none.mp hfresh]
    rfl
  · rw [if_neg Bool.false_ne_true, Protocol.wp_monad_bind]
    exact h₂.wp_selectUser (fun _ _ => trivial) (fun u held₃ db₃ h₃ => hread u held₃ db₃ h₃)
  · rw [if_pos rfl]
    exact hsome newUserId _ _ db₂ h₂

/-- An account's row is written under its lock. -/
theorem Unswitching.wp_updateAccount {id : AccountId} {pred : LinkedAccountRow → Bool}
    {f : LinkedAccountRow → LinkedAccountRow} (p : ModeAccount → Bool) (g : ModeAccount → ModeAccount)
    {Q : Bool → List (AccountsLock × LockMode) → (AccountsDb → AccountsDb) → AccountsDb → Prop}
    (h : Unswitching known held writes db) (hpred : ∀ a, pred a = p a.modeAccount) (hf : ∀ a, (f a).id = a.id)
    (hg : ∀ a, (f a).modeAccount = g a.modeAccount) (huser : ∀ a, (g a).userId = a.userId)
    (hQ : ∀ updated held' writes' db', Unswitching known held' writes' db' → Q updated held' writes' db') :
    modeProtocol.wp (.change (.account id) (fun db => (db.brokerAccounts.find? id).any pred)
      (AccountsDb.updateAccount id f) : AccountsTx Bool) Q held writes db := by
  refine Unswitching.wp_change [] h (fun a b hab => ?_) (AccountsDb.modeTables_updateAccount hf hg)
    (local_setAccount id g) (fun b hok _ _ => unswitched_setAccount hok huser List.mem_cons_self)
    (fun db' h' => hQ false _ _ db' h') (fun held' writes' db' _ h' => hQ true _ _ db' h')
  obtain rfl : pred = fun a => p a.modeAccount := funext hpred
  have hany := fun x => AccountsDb.any_modeAccount p x id
  exact (hany b).symm.trans ((congrArg (Option.any p) hab).trans (hany a))

theorem quiet_linkBrokerAccount (hok : modeProtocol.inv db) (input : LinkBrokerAccountInput) :
    modeProtocol.wp (linkBrokerAccount now input) CommitsLeaves [] (fun x => x) db := by
  unfold linkBrokerAccount
  rw [Protocol.wp_monad_bind]
  refine Unswitching.wp_upsertUser (Unswitching.start hok) (fun _ _ _ _ h₁ => Unswitching.commits h₁)
    (fun userId held₁ writes₁ db₁ h₁ => ?_)
  dsimp only
  rw [Protocol.wp_monad_bind]
  refine Unswitching.frame (lockReferralInviter_frames _) h₁ (fun inviter held₂ writes₂ db₂ h₂ => ?_)
  rw [Protocol.wp_monad_bind]
  refine Unswitching.wp_insertNew [] h₂ (fun a b hab => ?_)
    (AccountsDb.modeTables_insertAccount _) (local_addAccount _ _) (fun b hok hknown hfresh => ?_)
    (fun db₃ h₃ => ?_) (fun held₃ writes₃ db₃ h₃ => ?_)
  · have hnone : ∀ x : AccountsDb, (x.brokerAccounts.find? input.candidateId).isNone =
        (x.modeTables.account input.candidateId).isNone := fun x => Option.isNone_map.symm
    rw [hnone, hnone]
    exact congrArg Option.isNone hab
  · refine unswitched_addAccount hok ?_ (hknown userId List.mem_cons_self) List.mem_cons_self
    show Option.map _ (b.brokerAccounts.find? input.candidateId) = none
    rw [Option.isNone_iff_eq_none.mp hfresh]
    rfl
  · rw [if_neg Bool.false_ne_true, Protocol.wp_monad_bind]
    refine Unswitching.frame (frames_selectForKey _ _ _ _) h₃ (fun existing held₄ writes₄ db₄ h₄ => ?_)
    cases existing with
    | none => trivial
    | some existing =>
      dsimp only
      split
      · exact Unswitching.commits h₄
      · rw [Protocol.wp_monad_bind]
        refine Unswitching.wp_updateAccount (fun _ => true)
          (fun a => { a with status := if !input.activate && a.status = .pending then .pending else
            .active })
          h₄ (fun _ => rfl) (fun _ => rfl) (fun _ => rfl) (fun _ => rfl)
          (fun updated held₅ writes₅ db₅ h₅ => ?_)
        split
        · rw [Protocol.wp_monad_bind]
          exact h₅.wp_creditActivation (fun _ _ _ _ h₆ => Unswitching.commits h₆)
        · trivial
  · rw [if_pos rfl, Protocol.wp_monad_bind]
    exact h₃.wp_creditActivation (fun _ _ _ _ h₄ => Unswitching.commits h₄)

theorem quiet_confirmBrokerAccount (hok : modeProtocol.inv db) (telegramUserId : ℕ)
    (accountId : AccountId) :
    modeProtocol.wp (confirmBrokerAccount now telegramUserId accountId) CommitsLeaves [] (fun x => x)
      db := by
  unfold confirmBrokerAccount
  rw [Protocol.wp_monad_bind]
  refine Unswitching.wp_selectUser (Unswitching.start hok) (fun _ h₁ => Unswitching.commits h₁) (fun user held₁ db₁ h₁ => ?_)
  dsimp only
  split
  · exact Unswitching.commits h₁
  · rw [Protocol.wp_monad_bind]
    refine Unswitching.frame (lockReferralInviter_frames _) h₁ (fun inviter held₂ writes₂ db₂ h₂ => ?_)
    rw [Protocol.wp_monad_bind]
    refine Unswitching.frame (frames_selectFor _ _ _) h₂ (fun account held₃ writes₃ db₃ h₃ => ?_)
    cases account with
    | none => exact Unswitching.commits h₃
    | some account =>
      dsimp only
      split
      · exact Unswitching.commits h₃
      · rw [Protocol.wp_monad_bind]
        refine Unswitching.wp_updateAccount (fun _ => true) (fun a => { a with status := .active }) h₃
          (fun _ => rfl) (fun _ => rfl) (fun _ => rfl)
          (fun _ => rfl) (fun confirmed held₄ writes₄ db₄ h₄ => ?_)
        split
        · exact Unswitching.wp_credits h₄
        · trivial

theorem quiet_recordPostback (hok : modeProtocol.inv db) (input : RecordPostbackInput) :
    modeProtocol.wp (recordPostback input) CommitsLeaves [] (fun x => x) db := by
  have hdelivery : ∀ (source : PostbackSource) (postbackId : List Char) (row : PostbackDeliveryRow),
      (.change (.delivery source postbackId) (fun db => !db.journaled source postbackId)
        (AccountsDb.insertDelivery row) : AccountsTx Bool).Frames AccountsDb.modeTables :=
    fun _ _ _ => frames_change (fun _ => by rfl) _ _
  unfold recordPostback
  split
  · exact Unswitching.frame_commits ⟨fun _ => rfl, trivial⟩ (Unswitching.start hok)
  · rw [Protocol.wp_monad_bind]
    refine Unswitching.frame (frames_select _) (Unswitching.start hok) (fun seen held₁ writes₁ db₁ h₁ => ?_)
    split
    · exact Unswitching.commits h₁
    · rw [Protocol.wp_monad_bind]
      refine Unswitching.frame (frames_selectForKey _ _ _ _) h₁ (fun account held₂ writes₂ db₂ h₂ => ?_)
      unfold recordDeposit
      rw [Protocol.wp_monad_bind]
      refine Unswitching.wp_change [] h₂ (fun a b hab => ?_) (AccountsDb.modeTables_insertDeposit _)
        (local_addDeposit _ _) (fun b hok _ hnone => ?_) (fun db₃ h₃ => ?_)
          (fun held₃ writes₃ db₃ _ h₃ => ?_)
      · have hnone : ∀ (x : AccountsDb) key, (x.deposit key).isNone = (x.modeTables.deposit key).isNone :=
          fun x key => Option.isNone_map.symm
        rw [hnone, hnone]
        exact congrArg Option.isNone hab
      · refine unswitched_addDeposit hok ?_ rfl List.mem_cons_self
        exact Option.map_eq_none_iff.mpr (Option.isNone_iff_eq_none.mp hnone)
      · rw [if_neg Bool.false_ne_true]
        refine Unswitching.frame_commits (Frames.bind (frames_select _) (fun stored => ?_)) h₃
        cases stored with
        | none => trivial
        | some stored =>
          refine Frames.bind (hdelivery _ _ _) (fun delivery => ?_)
          split
          · trivial
          · trivial
      · rw [if_pos rfl]
        refine Unswitching.frame_commits (Frames.bind (hdelivery _ _ _) (fun delivery => ?_)) h₃
        split
        · trivial
        · trivial

theorem quiet_recordUserStart (hok : modeProtocol.inv db) (id : UserId) (telegramUserId : ℕ)
    (referral : Option ReferralRow) :
    modeProtocol.wp (recordUserStart (newUserRow id telegramUserId) referral) CommitsLeaves []
      (fun x => x) db := by
  unfold recordUserStart
  rw [Protocol.wp_monad_bind]
  refine Unswitching.wp_insertNew [id] (Unswitching.start hok) (fun a b hab => ?_)
    (AccountsDb.modeTables_insertUser _) (local_addUser _ _) (fun b hok _ hfresh => ?_)
    (fun db₂ h₂ => ?_) (fun held₂ writes₂ db₂ h₂ => ?_)
  · have hnone : ∀ x : AccountsDb, (x.users.find? id).isNone = (x.modeTables.user id).isNone :=
      fun x => Option.isNone_map.symm
    exact (hnone b).trans ((congrArg Option.isNone hab).trans (hnone a).symm)
  · refine unswitched_addUser hok ?_ rfl List.mem_cons_self
    exact Option.map_eq_none_iff.mpr (Option.isNone_iff_eq_none.mp hfresh)
  · rw [if_neg Bool.false_ne_true]
    exact Unswitching.commits h₂
  · rw [if_pos rfl]
    split
    · exact Unswitching.frame_commits ⟨fun _ => rfl, trivial⟩ h₂
    · exact Unswitching.commits h₂

theorem quiet_setUserStatus (hok : modeProtocol.inv db) (id : UserId) (status : UserStatus) :
    modeProtocol.wp (setUserStatus id status) CommitsLeaves [] (fun x => x) db := by
  refine Unswitching.wp_change [] (Unswitching.start hok) (fun a b hab => ?_)
    (AccountsDb.modeTables_updateUser (fun _ => rfl) (fun _ => rfl)) (local_setUser _ _)
    (fun b hok _ _ => unswitched_setStatus hok List.mem_cons_self)
    (fun _ h₁ => Protocol.wp_pure.mp (Unswitching.commits h₁)) (fun _ _ _ _ h₁ => Protocol.wp_pure.mp
      (Unswitching.commits h₁))
  have hany := fun x => AccountsDb.any_modeUser (fun u => u.status ≠ status) x id
  exact (hany b).symm.trans ((congrArg (Option.any _) hab).trans (hany a))

theorem quiet_revokeAccount (hok : modeProtocol.inv db) (id : AccountId) :
    modeProtocol.wp (AccountsTx.revokeAccount id) CommitsLeaves [] (fun x => x) db :=
  Unswitching.wp_updateAccount (fun a => a.status = .active) (fun a => { a with status := .revoked })
    (Unswitching.start hok) (fun _ => rfl) (fun _ => rfl) (fun _ => rfl) (fun _ => rfl)
    (fun _ _ _ _ h₁ => Protocol.wp_pure.mp (Unswitching.commits h₁))

theorem quiet_haltAccountForManualReview (hok : modeProtocol.inv db) (id : AccountId) (reviewed : Bool) :
    modeProtocol.wp (haltAccountForManualReview id reviewed) CommitsLeaves [] (fun x => x) db := by
  unfold haltAccountForManualReview
  rw [Protocol.wp_monad_bind]
  refine Unswitching.frame (frames_selectFor _ _ _) (Unswitching.start hok)
    (fun account held₁ writes₁ db₁ h₁ => ?_)
  cases account with
  | none => exact Unswitching.commits h₁
  | some account =>
    dsimp only
    split
    · rw [Protocol.wp_monad_bind]
      exact Unswitching.wp_updateAccount (fun _ => true) (fun a => { a with tradingHalted := true }) h₁
        (fun _ => rfl) (fun _ => rfl) (fun _ => rfl) (fun _ => rfl)
        (fun _ _ _ _ h₂ => Unswitching.commits h₂)
    · exact Unswitching.commits h₁

end Writers

end Binarius
