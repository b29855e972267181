import Mathlib.Tactic
import Binarius.Db.PostbackTables

/-!
# Db.PostbackRuns — deliveries among logins and confirmations (packages/db/src: postback-ops.ts,
oauth-ops.ts)

* `wp_attachDeposits`: **the late attachment leaves no deposit whose delivery found the account**.
* `wp_linkBrokerAccount`, `wp_confirmBrokerAccount`, `wp_recordPostback`: each transaction alone.
* `postback_sound`: so **every interleaving keeps the tables**.
* `postback_idempotence`: one deposit a payment, one journal row a postback id, one attribution.
-/

namespace Binarius

open Lib

section Commits

open PostbackTables

variable {held : List (AccountsLock × LockMode)} {db db' : AccountsDb} {id : AccountId}
  {row : LinkedAccountRow}
  {t t' : PostbackTables} {keys : List DepositKey}

theorem attach_append (t : PostbackTables) (keys : List DepositKey) (key : DepositKey)
    (owner : UserId × AccountId) :
    (t.attach keys owner).attach [key] owner = t.attach (keys ++ [key]) owner := by
  unfold PostbackTables.attach
  rw [List.foldl_append]

/-- The account's row is as it was when its lock was granted. -/
theorem account_of_env (hlock : (.account id, .exclusive) ∈ held)
    (henv : postbackProtocol.Env held db db') :
    db'.postbackTables.account id = db.postbackTables.account id :=
  (henv.same _ _ hlock : Same .exclusive (.account id) db.postbackTables db'.postbackTables).1

/-- A deposit whose delivery found the locked account was there when the lock was granted. -/
theorem found_of_env (hlock : (.account id, .exclusive) ∈ held) (hok : db.postbackTables.Ok)
    (henv : postbackProtocol.Env held db db') {d : DepositEventRow} (hd : d ∈ db'.postbackTables.deposits)
    (hfound : d.found = some id) :
    ∃ d₀ ∈ db.postbackTables.deposits, d₀.found = some id ∧ d₀.key = d.key ∧
      (d = d₀ ∨ d₀.owner = none ∧ ∃ owner, d = attached owner d₀) := by
  have hsame : Same .exclusive (.account id) db.postbackTables db'.postbackTables := henv.same _ _ hlock
  obtain ⟨d₀, hd₀, hfound₀, hkey⟩ := hsame.2 rfl ⟨d, hd, hfound, rfl⟩
  have hself : db.postbackTables.deposit d.key = some d₀ := by
    rw [← hkey]
    exact deposit_eq_some_of_mem hok hd₀
  exact ⟨d₀, hd₀, hfound₀, hkey, Grows.deposit_back henv.rely henv.inv hself hd⟩

section Attach

variable {userId : UserId} {trader : List Char} {looked : DepositKey → Prop}

theorem AttachOk.env (h : AttachOk id userId trader looked keys held db.postbackTables)
    (hlock : (.account id, .exclusive) ∈ held) (hok : db.postbackTables.Ok)
    (henv : postbackProtocol.Env held db db') :
    AttachOk id userId trader looked keys held db'.postbackTables := by
  refine ⟨h.locked, fun key hkey d hd => ?_, fun d hd hfound hlooked => ?_⟩
  · have hsame : db'.postbackTables.deposit key = db.postbackTables.deposit key :=
      henv.same _ _ (h.locked key hkey)
    rw [hsame] at hd
    exact h.free key hkey d hd
  · obtain ⟨d₀, hd₀, hfound₀, hkey, hcase⟩ := found_of_env hlock hok henv hd hfound
    rw [← hkey] at hlooked ⊢
    rcases hcase with rfl | ⟨hnone, owner, rfl⟩
    · exact h.left d hd₀ hfound hlooked
    · rcases h.left d₀ hd₀ hfound₀ hlooked with hmem | howner
      · exact .inl hmem
      · rw [hnone] at howner
        cases howner

theorem AttachOk.held_mono {held' : List (AccountsLock × LockMode)}
    (h : AttachOk id userId trader looked keys held t) (hsub : ∀ x ∈ held, x ∈ held') :
    AttachOk id userId trader looked keys held' t :=
  ⟨fun key hkey => hsub _ (h.locked key hkey), h.free, h.left⟩

/-- **The late attachment.**  Under the account's lock, once the statement is done no deposit whose delivery
found the account is left. -/
theorem wp_attachDeposits {writes : AccountsDb → AccountsDb}
    {Q : List DepositKey → List (AccountsLock × LockMode) → (AccountsDb → AccountsDb) → AccountsDb → Prop}
    (hlock : (.account id, .exclusive) ∈ held)
    (hown : ∀ a, db.postbackTables.account id = some a → a.userId = userId ∧ a.brokerUserId = trader)
    (hwrites : ∀ x, (writes x).postbackTables.deposits = x.postbackTables.deposits)
    (hQ : ∀ keys held' writes' db', (∀ x ∈ held, x ∈ held') → postbackProtocol.Env held db db' →
      (∀ x, (writes' x).postbackTables = (writes x).postbackTables.attach keys (userId, id)) →
      AttachOk id userId trader (fun _ => True) keys held' db'.postbackTables → Q keys held' writes' db') :
    postbackProtocol.wp (AccountsTx.attachDepositsToAccount id userId trader) Q held writes db := by
  intro db₁ henv₁
  have hok₁ : db₁.postbackTables.Ok := henv₁.inv
  -- what a delivery that found the account left of its deposit
  have hrow : ∀ x, postbackProtocol.Env held db x → ∀ d ∈ x.postbackTables.deposits, d.found = some id →
      d.brokerUserId = trader ∧ (d.owner = none ∨ d.owner = some (userId, id)) := by
    intro x henv d hd hfound
    obtain ⟨a, ha, htrader, hnone, hsome⟩ := (henv.inv : x.postbackTables.Ok).attributed d hd id hfound
    have haid : a.id = id := Table.key_of_find? ha
    rw [account_of_env hlock henv] at ha
    obtain ⟨huser, htrader'⟩ := hown a ha
    refine ⟨htrader.symm.trans htrader', ?_⟩
    by_cases hp : a.status = .pending
    · exact .inl (hnone hp)
    · right
      rw [hsome hp, huser, haid]
  have hdeposit : ∀ (keys : List DepositKey) (writes' : AccountsDb → AccountsDb) (x : AccountsDb) (key : DepositKey),
      (∀ x, (writes' x).postbackTables = (writes x).postbackTables.attach keys (userId, id)) → key ∉ keys →
      (writes' x).deposit key = x.postbackTables.deposit key := by
    intro keys writes' x key hview hnot
    show (writes' x).postbackTables.deposit key = _
    rw [hview, deposit_attach, if_neg hnot]
    unfold PostbackTables.deposit
    rw [hwrites]
  refine Protocol.wp_changeAll (fun done keys held' writes' db' => (∀ x ∈ held, x ∈ held') ∧
    postbackProtocol.Env held db₁ db' ∧
    (∀ x, (writes' x).postbackTables = (writes x).postbackTables.attach keys (userId, id)) ∧
    AttachOk id userId trader (fun key => key ∈ done) keys held' db'.postbackTables) ?_ ?_ ?_ ?_
  · refine ⟨fun _ hx => hx, Protocol.Env.refl henv₁.inv, fun _ => rfl, fun key hkey =>
      absurd hkey List.not_mem_nil,
      fun key hkey => absurd hkey List.not_mem_nil, fun d _ _ hlooked => absurd hlooked List.not_mem_nil⟩
  · rintro key done keys held' writes' db₂ db₃ ⟨hsub, henv, hview, hattach⟩ henv' _ hpred
    have hattach' := hattach.env (hsub _ hlock) henv.inv henv'
    have henv₃ := henv.trans (henv'.mono hsub)
    refine ⟨hsub, henv₃, hview, hattach'.locked, hattach'.free, fun d hd hfound hlooked => ?_⟩
    rcases List.mem_append.mp hlooked with hdone | hkey
    · exact hattach'.left d hd hfound hdone
    · have hkey := List.mem_singleton.mp hkey
      by_cases hmem : d.key ∈ keys
      · exact .inl hmem
      · right
        rw [← hkey, hdeposit keys writes' db₃ d.key hview hmem,
          deposit_eq_some_of_mem (henv'.inv : db₃.postbackTables.Ok) hd] at hpred
        obtain ⟨htrader, hnone | howner⟩ := hrow db₃ (henv₁.trans henv₃) d hd hfound
        · simp [hnone, htrader] at hpred
        · exact howner
  · rintro key done keys held' writes' db₂ db₃ ⟨hsub, henv, hview, hattach⟩ henv' _ hpred
    have hattach' := hattach.env (hsub _ hlock) henv.inv henv'
    refine ⟨fun x hx => List.mem_cons_of_mem _ (hsub x hx), henv.trans (henv'.mono hsub),
      fun x => ?_, ?_, ?_, ?_⟩
    · rw [← attach_append, ← hview]
      rfl
    · intro k hk
      rcases List.mem_append.mp hk with hk | hk
      · exact List.mem_cons_of_mem _ (hattach'.locked k hk)
      · rw [List.mem_singleton.mp hk]
        exact List.mem_cons_self
    · intro k hk d hd
      by_cases hmem : k ∈ keys
      · exact hattach'.free k hmem d hd
      · have hk : k = key := by
          rcases List.mem_append.mp hk with hk | hk
          · exact absurd hk hmem
          · exact List.mem_singleton.mp hk
        subst hk
        rw [hdeposit keys writes' db₃ k hview hmem, hd] at hpred
        simp only [Option.any_some, Bool.and_eq_true, decide_eq_true_eq, Option.isNone_iff_eq_none] at hpred
        exact ⟨hpred.2, hpred.1.2⟩
    · intro d hd hfound hlooked
      rcases List.mem_append.mp hlooked with hdone | hkey
      · rcases hattach'.left d hd hfound hdone with hmem | howner
        · exact .inl (List.mem_append_left _ hmem)
        · exact .inr howner
      · exact .inl (List.mem_append_right _ hkey)
  · rintro keys held' writes' db₂ ⟨hsub, henv, hview, hattach⟩
    refine hQ keys held' writes' db₂ hsub (henv₁.trans henv) hview ⟨hattach.locked, hattach.free, ?_⟩
    intro d hd hfound _
    obtain ⟨d₀, hd₀, hfound₀, hkey, hcase⟩ := found_of_env hlock hok₁ henv hd hfound
    obtain ⟨htrader, hnone | howner⟩ := hrow db₁ henv₁ d₀ hd₀ hfound₀
    · refine hattach.left d hd hfound ?_
      rw [← hkey]
      refine List.mem_map_of_mem (List.mem_filter.mpr ⟨?_, ?_⟩)
      · show d₀ ∈ (writes db₁).postbackTables.deposits
        rw [hwrites]
        exact hd₀
      · simp [hnone, htrader]
    · right
      rcases hcase with rfl | ⟨hnone, _⟩
      · exact howner
      · rw [hnone] at howner
        cases howner

end Attach

/-- The deposit but for its attribution. -/
def DepositEventRow.unowned (deposit : DepositEventRow) : DepositEventRow := { deposit with owner := none }

/-- A commit that makes no deposit and no journal row: it only attributes. -/
def PostbackTables.NoNew (t t' : PostbackTables) : Prop :=
  t'.deposits.map DepositEventRow.unowned = t.deposits.map DepositEventRow.unowned ∧ t'.journal = t.journal

/-- What a transaction that is no delivery commits. -/
abbrev CommitsNoNew {α : Type} : α → List (AccountsLock × LockMode) → (AccountsDb → AccountsDb) →
    AccountsDb → Prop :=
  postbackProtocol.Commits (fun db db' _ => db.postbackTables.NoNew db'.postbackTables)

theorem commitsNoNew_of_tables {α : Type} {a : α} {writes : AccountsDb → AccountsDb}
    (h : ∀ x, (writes x).postbackTables = x.postbackTables) : CommitsNoNew a held writes db := by
  intro db' henv
  refine ⟨guarantee_of_tables henv.inv (h db'), ?_⟩
  show db'.postbackTables.NoNew (writes db').postbackTables
  rw [h]
  exact ⟨rfl, rfl⟩

theorem wp_pure_quiet {α : Type} {a : α} {writes : AccountsDb → AccountsDb}
    (h : ∀ x, (writes x).postbackTables = x.postbackTables) :
    postbackProtocol.wp (pure a : AccountsTx α) CommitsNoNew held writes db :=
  @commitsNoNew_of_tables held db α a writes h

/-- A program that leaves the three tables commits nothing of theirs. -/
theorem wp_quiet {α : Type} {p : AccountsTx α} (hp : p.Frames AccountsDb.postbackTables)
    {writes : AccountsDb → AccountsDb} (hok : db.postbackTables.Ok)
    (h : ∀ x, (writes x).postbackTables = x.postbackTables) :
    postbackProtocol.wp p CommitsNoNew held writes db :=
  Protocol.wp_frame hp hok (fun _ _ _ _ _ hview _ => commitsNoNew_of_tables (fun x =>
    (hview x).trans (h x)))

/-- The transaction has written the account's row and attributed its deposits. -/
structure Activated (id : AccountId) (row : LinkedAccountRow) (keys : List DepositKey)
    (held : List (AccountsLock × LockMode)) (writes : AccountsDb → AccountsDb)
    (db : AccountsDb) : Prop where
  rewrites : Rewrites id row held db.postbackTables
  attach : AttachOk id row.userId row.brokerUserId (fun _ => row.status ≠ .pending) keys held
    db.postbackTables
  pending : row.status = .pending → keys = [] ∧
    ∀ a, db.postbackTables.account id = some a → a.status = .pending
  effect : ∀ x, x.postbackTables.account id = db.postbackTables.account id →
    (∀ j, (writes x).postbackTables.account j = if id = j then some row else x.postbackTables.account j) ∧
    (writes x).postbackTables.deposits = (x.postbackTables.attach keys (row.userId, id)).deposits ∧
    (writes x).postbackTables.journal = x.postbackTables.journal

section Activated

variable {writes writes' : AccountsDb → AccountsDb}

theorem Rewrites.env (h : Rewrites id row held db.postbackTables)
    (henv : postbackProtocol.Env held db db') :
    Rewrites id row held db'.postbackTables := by
  refine ⟨h.id_eq, h.lock, fun a ha => ?_, fun hnone => ?_⟩
  · rw [account_of_env h.lock henv] at ha
    exact h.old a ha
  · rw [account_of_env h.lock henv] at hnone
    obtain ⟨htrader, hlock⟩ := h.new hnone
    have hsame : db'.postbackTables.hasTrader row.brokerUserId →
        db.postbackTables.hasTrader row.brokerUserId :=
      henv.same _ _ hlock
    exact ⟨fun htaken => htrader (hsame htaken), hlock⟩

theorem Rewrites.held_mono {held' : List (AccountsLock × LockMode)} (h : Rewrites id row held t)
    (hsub : ∀ x ∈ held, x ∈ held') : Rewrites id row held' t := by
  refine ⟨h.id_eq, hsub _ h.lock, h.old, fun hnone => ?_⟩
  obtain ⟨htrader, hlock⟩ := h.new hnone
  exact ⟨htrader, hsub _ hlock⟩

theorem Activated.env (h : Activated id row keys held writes db) (hok : db.postbackTables.Ok)
    (henv : postbackProtocol.Env held db db') : Activated id row keys held writes db' := by
  have haccount := account_of_env h.rewrites.lock henv
  refine ⟨h.rewrites.env henv, h.attach.env h.rewrites.lock hok henv, fun hp => ?_, fun x hx => ?_⟩
  · rw [haccount]
    exact h.pending hp
  · exact h.effect x (hx.trans haccount)

theorem Activated.frame {held' : List (AccountsLock × LockMode)} (h : Activated id row keys held writes db)
    (hsub : ∀ x ∈ held, x ∈ held') (hview : ∀ x, (writes' x).postbackTables = (writes x).postbackTables) :
    Activated id row keys held' writes' db := by
  refine ⟨h.rewrites.held_mono hsub, h.attach.held_mono hsub, h.pending, fun x hx => ?_⟩
  rw [hview]
  exact h.effect x hx

theorem map_unowned_attach (t : PostbackTables) (keys : List DepositKey) (owner : UserId × AccountId) :
    (t.attach keys owner).deposits.map DepositEventRow.unowned =
      t.deposits.map DepositEventRow.unowned := by
  unfold PostbackTables.attach
  generalize t.deposits = rows
  induction keys generalizing rows with
  | nil => rfl
  | cons key keys ih =>
    rw [List.foldl_cons, ih]
    unfold modifyAt
    rw [List.map_map]
    refine List.map_congr_left (fun d _ => ?_)
    show DepositEventRow.unowned (if d.key = key then attached owner d else d) = d.unowned
    split
    · rfl
    · rfl

/-- **An activation commits.** -/
theorem Activated.commits {α : Type} (h : Activated id row keys held writes db) (hok : db.postbackTables.Ok)
    (a : α) : CommitsNoNew a held writes db := by
  intro db' henv
  have h' := h.env hok henv
  obtain ⟨haccount, hdeposits, hjournal⟩ := h'.effect db' rfl
  refine ⟨h'.rewrites.guarantee henv.inv h'.attach h'.pending haccount hdeposits hjournal, ?_⟩
  show db'.postbackTables.NoNew (writes db').postbackTables
  refine ⟨?_, hjournal⟩
  rw [hdeposits]
  exact map_unowned_attach db'.postbackTables keys (row.userId, id)

/-- After an activation, a program that leaves the three tables. -/
theorem Activated.wp_quiet {α : Type} {p : AccountsTx α} (h : Activated id row keys held writes db)
    (hok : db.postbackTables.Ok) (hp : p.Frames AccountsDb.postbackTables) :
    postbackProtocol.wp p CommitsNoNew held writes db := by
  refine Protocol.wp_frame hp hok (fun a held' writes' db' hsub hview henv => ?_)
  exact ((h.env hok henv).frame hsub hview).commits henv.inv a

/-- An account's row is written: what is left is the attachment. -/
theorem activated_of_attach (hrewrites : Rewrites id row held db.postbackTables)
    (hattach : AttachOk id row.userId row.brokerUserId (fun _ => row.status ≠ .pending) keys held
      db.postbackTables)
    (hpending : row.status = .pending → keys = [] ∧
      ∀ a, db.postbackTables.account id = some a → a.status = .pending)
    (hview : ∀ x, (writes' x).postbackTables = (writes x).postbackTables.attach keys (row.userId, id))
    (hwrites : ∀ x, x.postbackTables.account id = db.postbackTables.account id →
      (∀ j, (writes x).postbackTables.account j = if id = j then some row else x.postbackTables.account j) ∧
      (writes x).postbackTables.deposits = x.postbackTables.deposits ∧
      (writes x).postbackTables.journal = x.postbackTables.journal) :
    Activated id row keys held writes' db := by
  refine ⟨hrewrites, hattach, hpending, fun x hx => ?_⟩
  obtain ⟨haccount, hdeposits, hjournal⟩ := hwrites x hx
  rw [hview]
  refine ⟨haccount, ?_, hjournal⟩
  unfold PostbackTables.attach
  rw [hdeposits]

/-- Nothing to attach: the row does not become confirmed. -/
theorem activated_nil (hok : db.postbackTables.Ok) (hrewrites : Rewrites id row held db.postbackTables)
    (hold : ∀ a, db.postbackTables.account id = some a → (row.status = .pending ↔ a.status = .pending))
    (hwrites : ∀ x, x.postbackTables.account id = db.postbackTables.account id →
      (∀ j, (writes x).postbackTables.account j = if id = j then some row else x.postbackTables.account j) ∧
      (writes x).postbackTables.deposits = x.postbackTables.deposits ∧
      (writes x).postbackTables.journal = x.postbackTables.journal) :
    Activated id row [] held writes db := by
  refine ⟨hrewrites, ⟨fun key hkey => absurd hkey List.not_mem_nil, fun key hkey =>
    absurd hkey List.not_mem_nil,
    fun d hd hfound hne => ?_⟩, fun hp => ⟨rfl, fun a ha => (hold a ha).mp hp⟩, hwrites⟩
  obtain ⟨a, ha, _, _, hsome⟩ := hok.attributed d hd id hfound
  have haid : a.id = id := Table.key_of_find? ha
  right
  rw [hsome (fun hp => hne ((hold a ha).mpr hp)), (hrewrites.old a ha).1, haid]

end Activated

/-! ## The programs -/

section Programs

open AccountsTx TxProg

variable (now : UnixMs)

theorem frames_resolveActiveRule (code : String) :
    (resolveActiveRule now code).Frames AccountsDb.postbackTables := by
  refine Frames.bind (frames_select _) (fun rule => ?_)
  cases rule with
  | none => trivial
  | some rule =>
    dsimp only
    split
    · trivial
    · trivial

theorem frames_applyBonus (code : String) (userId : UserId) (reference : BonusReference) :
    (applyBonus now code userId reference).Frames AccountsDb.postbackTables := by
  refine Frames.bind (frames_resolveActiveRule now code) (fun found => ?_)
  cases found with
  | none => trivial
  | some found =>
    obtain ⟨rule, params⟩ := found
    dsimp only
    split
    · trivial
    · split
      · trivial
      · refine Frames.bind (frames_change (fun _ => by rfl) _ _) (fun inserted => ?_)
        split
        · exact Frames.bind (frames_change (fun _ => by rfl) _ _) (fun _ => trivial)
        · trivial

theorem frames_grantLinkBonus (userId : UserId) (account : LinkedAccountRow) :
    (grantLinkBonus now userId account).Frames AccountsDb.postbackTables := by
  unfold grantLinkBonus
  split
  · refine Frames.bind (frames_applyBonus now _ _ _) (fun grant => ?_)
    split
    · trivial
    · trivial
    · trivial
  · trivial

theorem frames_lockReferralInviter (userId : UserId) :
    (lockReferralInviter userId).Frames AccountsDb.postbackTables := by
  refine Frames.bind (frames_select _) (fun referral => ?_)
  cases referral with
  | none => trivial
  | some referral =>
    refine Frames.bind (frames_select _) (fun paid => ?_)
    split
    · trivial
    · refine Frames.bind (frames_selectFor _ _ _) (fun inviter => ?_)
      cases inviter with
      | none => trivial
      | some inviter => trivial

theorem frames_grantReferralReward (referral : ReferralInviter) (account : LinkedAccountRow) :
    (grantReferralReward now referral account).Frames AccountsDb.postbackTables := by
  unfold grantReferralReward
  split
  · split
    · trivial
    · trivial
    · trivial
    · refine Frames.bind (frames_applyBonus now _ _ _) (fun grant => ?_)
      split
      · trivial
      · trivial
      · trivial
  · trivial

theorem frames_upsertUser (telegramUserId : ℕ) (newUserId : UserId) :
    (upsertUser telegramUserId newUserId).Frames AccountsDb.postbackTables := by
  refine Frames.bind (frames_selectForKey _ _ _ _) (fun existing => ?_)
  cases existing with
  | some existing => trivial
  | none =>
    refine Frames.bind (frames_insertNew (fun _ => by rfl) _ _ _ _ _) (fun created => ?_)
    split
    · trivial
    · refine Frames.bind (frames_selectForKey _ _ _ _) (fun raced => ?_)
      cases raced with
      | some raced => trivial
      | none => trivial

theorem frames_recordUserStart (row : UserRow) (referral : Option ReferralRow) :
    (recordUserStart row referral).Frames AccountsDb.postbackTables := by
  refine Frames.bind (frames_insertNew (fun _ => by rfl) _ _ _ _ _) (fun inserted => ?_)
  split
  · split
    · exact ⟨fun _ => rfl, trivial⟩
    · trivial
  · trivial

theorem frames_setUserStatus (id : UserId) (status : UserStatus) :
    (setUserStatus id status).Frames AccountsDb.postbackTables := by
  unfold setUserStatus
  exact frames_change (fun _ => by rfl) _ _

theorem frames_lockCode (code : String) : (lockCode code).Frames AccountsDb.postbackTables :=
  fun _ => frames_lockAll _ _ _

theorem frames_createBonusRuleVersion (code : String) (kind : Option BonusRuleKind) (params : RawParams) :
    (createBonusRuleVersion code kind params).Frames AccountsDb.postbackTables := by
  refine Frames.bind (frames_lockCode code) (fun rows => ?_)
  dsimp only
  split
  · trivial
  · split
    · trivial
    · split
      · trivial
      · refine Frames.bind (frames_change (fun _ => by rfl) _ _) (fun inserted => ?_)
        split
        · trivial
        · trivial

theorem frames_activateBonusRuleVersion (code : String) (version : ℕ) :
    (activateBonusRuleVersion code version).Frames AccountsDb.postbackTables := by
  refine Frames.bind (frames_lockCode code) (fun rows => ?_)
  dsimp only
  split
  · trivial
  · split
    · trivial
    · split
      · trivial
      · refine Frames.bind ?_ (fun _ => Frames.bind (frames_change (fun _ => by rfl) _ _) (fun free => ?_))
        · split
          · exact frames_change (fun _ => by rfl) _ _
          · trivial
        · split
          · refine Frames.bind (frames_change (fun _ => by rfl) _ _) (fun updated => ?_)
            split
            · trivial
            · trivial
          · trivial

theorem frames_deactivateBonusRule (code : String) :
    (deactivateBonusRule code).Frames AccountsDb.postbackTables := by
  refine Frames.bind (frames_lockCode code) (fun rows => ?_)
  split
  · trivial
  · split
    · trivial
    · refine Frames.bind (frames_change (fun _ => by rfl) _ _) (fun updated => ?_)
      split
      · trivial
      · trivial

end Programs

section Activations

open AccountsTx TxProg

variable {now : UnixMs} {writes : AccountsDb → AccountsDb}

theorem account_modified {f : LinkedAccountRow → LinkedAccountRow} (hf : ∀ a, (f a).id = a.id)
    {a : LinkedAccountRow}
    {x : AccountsDb} (hx : x.postbackTables.account id = some a) (j : AccountId) :
    (x.updateAccount id f).postbackTables.account j =
      if id = j then some (f a) else x.postbackTables.account j := by
  show (x.brokerAccounts.modified id f).find? j = _
  rw [Table.find?_modified hf]
  split
  · rename_i hj
    subst hj
    show Option.map f (x.postbackTables.account id) = some (f a)
    rw [hx]
    rfl
  · rfl

/-- An existing account's row is written and its deposits are attached, under its lock. -/
theorem rewrites_of_update {a : LinkedAccountRow} (ha : db.postbackTables.account id = some a)
    (hlock : (.account id, .exclusive) ∈ held) (row : LinkedAccountRow) (hrow : row.id = a.id ∧
      row.userId = a.userId ∧ row.brokerUserId = a.brokerUserId ∧
        (a.status ≠ .pending → row.status ≠ .pending)) :
    Rewrites id row held db.postbackTables := by
  refine ⟨hrow.1.trans (Table.key_of_find? ha), hlock, fun a' ha' => ?_, fun hnone => ?_⟩
  · rw [ha] at ha'
    obtain rfl := Option.some.inj ha'
    exact hrow.2
  · rw [ha] at hnone
    cases hnone

/-- The account's row is confirmed: its deposits are attached, and the rest leaves the three tables. -/
theorem wp_attach_then {α : Type} (row : LinkedAccountRow) {p : List DepositKey → AccountsTx α}
    (hp : ∀ keys, (p keys).Frames AccountsDb.postbackTables)
    (hrewrites : Rewrites id row held db.postbackTables)
    (hstatus : row.status ≠ .pending)
    (hwrites : ∀ x, (writes x).postbackTables.deposits = x.postbackTables.deposits ∧
      (writes x).postbackTables.journal = x.postbackTables.journal)
    (haccount : ∀ x, x.postbackTables.account id = db.postbackTables.account id →
      ∀ j, (writes x).postbackTables.account j = if id = j then some row else x.postbackTables.account j) :
    postbackProtocol.wp (attachDepositsToAccount id row.userId row.brokerUserId >>= p) CommitsNoNew held
      writes
      db := by
  rw [Protocol.wp_monad_bind]
  refine wp_attachDeposits hrewrites.lock (fun a ha => ?_) (fun x => (hwrites x).1) ?_
  · obtain ⟨huser, htrader, -⟩ := hrewrites.old a ha
    exact ⟨huser.symm, htrader.symm⟩
  · intro keys held' writes' db' hsub henv hview hattach
    have hactivated : Activated id row keys held' writes' db' := by
      refine activated_of_attach ((hrewrites.env henv).held_mono hsub)
        ⟨hattach.locked, hattach.free, fun d hd hfound _ => hattach.left d hd hfound trivial⟩
        (fun hpending => absurd hpending hstatus) hview (fun x hx => ?_)
      exact ⟨haccount x (hx.trans (account_of_env hrewrites.lock henv)), hwrites x⟩
    exact hactivated.wp_quiet henv.inv (hp keys)

/-- **The credits of an activation**: the attachment, the starter pack and the inviter's reward. -/
theorem wp_creditActivation {activate : Bool} {userId : UserId} {inviter : ReferralInviter}
    (hok : db.postbackTables.Ok) (hrewrites : Rewrites id row held db.postbackTables)
      (huser : row.userId = userId)
    (hactive : activate = true → row.status ≠ .pending)
    (hcallback : activate = false → ∀ a, db.postbackTables.account id = some a →
      (row.status = .pending ↔ a.status = .pending))
    (hwrites : ∀ x, (writes x).postbackTables.deposits = x.postbackTables.deposits ∧
      (writes x).postbackTables.journal = x.postbackTables.journal)
    (haccount : ∀ x, x.postbackTables.account id = db.postbackTables.account id →
      ∀ j, (writes x).postbackTables.account j = if id = j then some row else x.postbackTables.account j) :
    postbackProtocol.wp (creditActivation now activate userId row inviter) CommitsNoNew held writes db := by
  subst huser
  have hid : row.id = id := hrewrites.id_eq
  unfold creditActivation
  split
  · rename_i hactivate
    rw [hid]
    refine wp_attach_then row (fun _ => ?_) hrewrites (hactive hactivate) hwrites haccount
    refine Frames.bind (frames_grantLinkBonus now _ _) (fun grant => ?_)
    exact Frames.bind (frames_grantReferralReward now _ _) (fun _ => trivial)
  · rename_i hactivate
    have hcallback := hcallback (Bool.eq_false_of_not_eq_true hactivate)
    have hactivated : Activated id row [] held writes db :=
      activated_nil hok hrewrites hcallback (fun x hx => ⟨haccount x hx, hwrites x⟩)
    refine hactivated.wp_quiet hok ?_
    split
    · exact Frames.bind (frames_grantReferralReward now _ _) (fun _ => trivial)
    · trivial

theorem wp_linkBrokerAccount (hok : db.postbackTables.Ok) (input : LinkBrokerAccountInput) :
    postbackProtocol.wp (linkBrokerAccount now input) CommitsNoNew [] (fun x => x) db := by
  unfold linkBrokerAccount
  rw [Protocol.wp_monad_bind]
  refine Protocol.wp_frame (frames_upsertUser _ _) hok (fun found held₁ writes₁ db₁ _ hview₁ henv₁ => ?_)
  cases found with
  | none => exact wp_pure_quiet hview₁
  | some userId =>
    dsimp only
    rw [Protocol.wp_monad_bind]
    refine Protocol.wp_frame (frames_lockReferralInviter _) henv₁.inv
      (fun inviter held₂ writes₂ db₂ _ hview₂ henv₂ => ?_)
    have hview : ∀ x, (writes₂ x).postbackTables = x.postbackTables := fun x => (hview₂ x).trans (hview₁ x)
    rw [Protocol.wp_monad_bind]
    refine Protocol.wp_insertNew (fun db₃ _ _ => ?_) (fun db₃ db₄ henv₃ hfree henv₄ hfresh => ?_)
    · rw [if_neg Bool.false_ne_true, Protocol.wp_monad_bind]
      refine Protocol.wp_selectForKey (fun _ _ _ => trivial) (fun _ _ _ _ _ _ _ => trivial)
        (fun db₄ db₅ i a _ _ _ ha => ?_)
      replace ha : (writes₂ db₅).postbackTables.account i = some a := ha
      have hi : a.id = i := Table.key_of_find? ha
      subst hi
      rw [hview] at ha
      dsimp only
      split
      · exact wp_pure_quiet hview
      · rename_i huser
        rw [Protocol.wp_monad_bind]
        refine Protocol.wp_change (fun _ _ _ => trivial) (fun db₆ henv₆ _ => ?_)
        have ha₆ : db₆.postbackTables.account a.id = some a :=
          (account_of_env List.mem_cons_self henv₆).trans ha
        rw [if_pos rfl, Protocol.wp_monad_bind]
        refine Protocol.wp_mono (wp_creditActivation henv₆.inv
          (rewrites_of_update ha₆ List.mem_cons_self (input.relogin a)
          ⟨rfl, rfl, rfl, ?_⟩) (not_not.mp huser) ?_ ?_ (fun x => ?_) (fun x hx j => ?_))
          (fun _ _ _ _ h => h)
        · intro hne
          simp only [LinkBrokerAccountInput.relogin]
          split
          · rename_i hpending
            simp only [Bool.and_eq_true, decide_eq_true_eq] at hpending
            exact absurd hpending.2 hne
          · decide
        · intro hactivate
          simp [LinkBrokerAccountInput.relogin, hactivate]
        · intro hactivate a' ha'
          rw [ha₆] at ha'
          obtain rfl := Option.some.inj ha'
          simp [LinkBrokerAccountInput.relogin, hactivate]
        · show (writes₂ x).postbackTables.deposits = _ ∧ (writes₂ x).postbackTables.journal = _
          rw [hview]
          exact ⟨rfl, rfl⟩
        · have hx' : (writes₂ x).postbackTables.account a.id = some a := by
            rw [hview]
            exact hx.trans ha₆
          refine (account_modified (fun _ => by rfl) hx' j).trans ?_
          rw [hview]
    · have hfree : ¬ db₃.postbackTables.hasTrader input.brokerUserId := by
        rw [← hview]
        exact not_hasTrader (Option.isNone_iff_eq_none.mp hfree)
      have hfresh : db₄.postbackTables.account (input.row userId).id = none := by
        rw [← hview]
        exact Option.isNone_iff_eq_none.mp hfresh
      have hsame : db₄.postbackTables.hasTrader input.brokerUserId →
          db₃.postbackTables.hasTrader input.brokerUserId :=
        henv₄.same _ _ List.mem_cons_self
      rw [if_pos rfl, Protocol.wp_monad_bind]
      have hrewrites : Rewrites (input.row userId).id (input.row userId)
        ((.account input.candidateId, .exclusive) ::
          (.brokerUser input.brokerUserId, .exclusive) :: held₂) db₄.postbackTables := by
        refine ⟨rfl, List.mem_cons_self, fun a ha => ?_, fun _ => ⟨fun htaken => hfree (hsame htaken),
          List.mem_cons_of_mem _ List.mem_cons_self⟩⟩
        rw [hfresh] at ha
        cases ha
      refine Protocol.wp_mono (wp_creditActivation henv₄.inv hrewrites rfl ?_ ?_ (fun x => ?_)
        (fun x hx j => ?_))
        (fun _ _ _ _ h => h)
      · intro hactivate
        simp [LinkBrokerAccountInput.row, hactivate]
      · intro _ a ha
        rw [hfresh] at ha
        cases ha
      · show (writes₂ x).postbackTables.deposits = _ ∧ (writes₂ x).postbackTables.journal = _
        rw [hview]
        exact ⟨rfl, rfl⟩
      · have hx' : (writes₂ x).brokerAccounts.find? (key (input.row userId)) = none := by
          show (writes₂ x).postbackTables.account (input.row userId).id = none
          rw [hview]
          exact hx.trans hfresh
        refine (Table.find?_inserted hx' j).trans ?_
        show (if (input.row userId).id = j then some (input.row userId) else
          (writes₂ x).postbackTables.account j) = _
        rw [hview]

theorem wp_confirmBrokerAccount (hok : db.postbackTables.Ok) (telegramUserId : ℕ) (accountId : AccountId) :
    postbackProtocol.wp (confirmBrokerAccount now telegramUserId accountId) CommitsNoNew [] (fun x => x)
      db := by
  unfold confirmBrokerAccount
  rw [Protocol.wp_monad_bind]
  refine Protocol.wp_frame (show TxProg.Frames AccountsDb.postbackTables _ from frames_selectForKey _ _
    _ _) hok
    (fun found held₁ writes₁ db₁ _ hview₁ henv₁ => ?_)
  cases found with
  | none => exact wp_pure_quiet hview₁
  | some user =>
    dsimp only
    split
    · exact wp_pure_quiet hview₁
    · rw [Protocol.wp_monad_bind]
      refine Protocol.wp_frame (frames_lockReferralInviter _) henv₁.inv
        (fun inviter held₂ writes₂ db₂ _ hview₂ henv₂ => ?_)
      have hview : ∀ x, (writes₂ x).postbackTables = x.postbackTables :=
        fun x => (hview₂ x).trans (hview₁ x)
      rw [Protocol.wp_monad_bind]
      refine Protocol.wp_selectFor (fun _ _ _ => wp_pure_quiet hview) (fun db₃ a henv₃ ha => ?_)
      obtain ⟨ha, huser⟩ := Option.filter_eq_some_iff.mp ha
      replace ha : (writes₂ db₃).postbackTables.account accountId = some a := ha
      have hi : a.id = accountId := Table.key_of_find? ha
      subst hi
      rw [hview] at ha
      dsimp only
      split
      · exact wp_pure_quiet hview
      · rw [Protocol.wp_monad_bind]
        refine Protocol.wp_change (fun _ _ _ => trivial) (fun db₄ henv₄ _ => ?_)
        have ha₄ : db₄.postbackTables.account a.id = some a :=
          (account_of_env List.mem_cons_self henv₄).trans ha
        rw [if_pos rfl]
        have huser : a.userId = user.id := by simpa using huser
        have hrewrites : Rewrites a.id { a with status := .active } ((.account a.id, .exclusive) ::
            (.account a.id, .exclusive) :: held₂) db₄.postbackTables :=
          rewrites_of_update ha₄ List.mem_cons_self _ ⟨rfl, rfl, rfl, fun _ hp => by cases hp⟩
        show postbackProtocol.wp (attachDepositsToAccount a.id user.id a.brokerUserId >>= _)
          CommitsNoNew _ _ _
        rw [← huser]
        refine wp_attach_then { a with status := .active } (fun _ => ?_) hrewrites
          (fun hp => by cases hp) (fun x => ?_) (fun x hx j => ?_)
        · refine Frames.bind (frames_grantLinkBonus now _ _) (fun grant => ?_)
          exact Frames.bind (frames_grantReferralReward now _ _) (fun _ => trivial)
        · show (writes₂ x).postbackTables.deposits = _ ∧ (writes₂ x).postbackTables.journal = _
          rw [hview]
          exact ⟨rfl, rfl⟩
        · have hx' : (writes₂ x).postbackTables.account a.id = some a := by
            rw [hview]
            exact hx.trans ha₄
          refine (account_modified (fun _ => by rfl) hx' j).trans ?_
          rw [hview]

theorem wp_revokeAccount (accountId : AccountId) :
    postbackProtocol.wp (AccountsTx.revokeAccount accountId) CommitsNoNew [] (fun x => x) db := by
  refine Protocol.wp_change (fun _ _ _ => commitsNoNew_of_tables (fun _ => rfl)) (fun db₁ henv₁ hp => ?_)
  cases ha : db₁.postbackTables.account accountId with
  | none =>
    replace ha : db₁.brokerAccounts.find? accountId = none := ha
    rw [ha] at hp
    cases hp
  | some a =>
    have hactive : a.status = .active := by
      replace ha : db₁.brokerAccounts.find? accountId = some a := ha
      rw [ha] at hp
      simpa using hp
    -- the row as it is read at the commit
    intro db₂ henv₂
    have ha₂ : db₂.postbackTables.account accountId = some a :=
      (account_of_env List.mem_cons_self henv₂).trans ha
    have hrewrites : Rewrites accountId { a with status := .revoked } [(.account accountId, .exclusive)]
        db₂.postbackTables :=
      rewrites_of_update ha₂ List.mem_cons_self _ ⟨rfl, rfl, rfl, fun _ hp => by cases hp⟩
    have hactivated : Activated accountId { a with status := .revoked } []
      [(.account accountId, .exclusive)]
        (AccountsDb.updateAccount accountId (fun account => { account with status := .revoked })) db₂ := by
      refine activated_nil henv₂.inv hrewrites (fun a' ha' => ?_) (fun x hx => ⟨fun j => ?_, rfl, rfl⟩)
      · rw [ha₂] at ha'
        obtain rfl := Option.some.inj ha'
        rw [hactive]
        exact ⟨fun hp => (by cases hp), fun hp => (by cases hp)⟩
      · exact account_modified (fun _ => by rfl) (hx.trans ha₂) j
    exact hactivated.commits henv₂.inv true db₂ (Protocol.Env.refl henv₂.inv)

end Activations

/-! ## The deliveries -/

section Deliveries

open AccountsTx TxProg

/-- What a delivery's answer says of its commit. -/
def PostbackPost (input : RecordPostbackInput) (began t t' : PostbackTables) : RecordPostbackResult → Prop
  | .recorded postbackId event depositEventId _ =>
    ∃ paymentId traderId amount coin account,
      classifyPostback input.query = .deposit postbackId event paymentId traderId amount coin ∧
      depositEventId = (input.source, paymentId) ∧ t.deposit depositEventId = none ∧
      t.journaled input.source postbackId = false ∧
      t'.deposits = input.depositRow paymentId traderId amount coin account :: t.deposits ∧
      t'.journal = input.deliveryRow postbackId event true depositEventId :: t.journal ∧
      began.Grows t ∧
      (∀ id a, began.account id = some a → a.brokerUserId = traderId → account.map (·.id) = some id)
  | .repeated postbackId event depositEventId _ =>
    t.journaled input.source postbackId = false ∧ (t.deposit depositEventId).isSome ∧
      t'.deposits = t.deposits ∧
      t'.journal = input.deliveryRow postbackId event false depositEventId :: t.journal
  | .duplicate _ _ => t'.deposits = t.deposits ∧ t'.journal = t.journal
  | .rejected reason postbackId event =>
    t'.deposits = t.deposits ∧ t'.journal = input.rejectedRow reason postbackId event :: t.journal

abbrev CommitsPostback (input : RecordPostbackInput) (began : AccountsDb) (result : RecordPostbackResult) :
    List (AccountsLock × LockMode) → (AccountsDb → AccountsDb) → AccountsDb → Prop :=
  postbackProtocol.Commits (fun db db' result =>
    PostbackPost input began.postbackTables db.postbackTables db'.postbackTables result) result

/-- What the deposit's row needs of the account that its delivery found. -/
theorem attributes_depositRow {input : RecordPostbackInput} {paymentId : List Char} {amount : DecimalString}
    {coin : Option (List Char)} (a : LinkedAccountRow) :
    a.Attributes (input.depositRow paymentId a.brokerUserId amount coin (some a)) := by
  refine ⟨rfl, fun hp => ?_, fun hne => ?_⟩
  · show depositOwner (some a) = none
    simp [depositOwner, hp]
  · show depositOwner (some a) = some _
    simp [depositOwner, Option.filter, hne]

/-- **The second half of a delivery**: the account is found, or there is none. -/
theorem wp_recordDeposit {input : RecordPostbackInput} {began : AccountsDb}
    {postbackId paymentId traderId : List Char}
    {event : PostbackEvent} {amount : DecimalString} {coin : Option (List Char)}
    {account : Option LinkedAccountRow}
    (hclassified : classifyPostback input.query = .deposit postbackId event paymentId traderId amount coin)
    (hgrows : began.postbackTables.Grows db.postbackTables)
    (hlocked : ∀ a, account = some a → (.account a.id, .share) ∈ held ∧
      db.postbackTables.account a.id = some a ∧ a.brokerUserId = traderId)
    (hbegan : ∀ id a, began.postbackTables.account id = some a → a.brokerUserId = traderId →
      account.map (·.id) = some id) :
    postbackProtocol.wp (recordDeposit input postbackId event paymentId traderId amount coin account)
      (CommitsPostback input began) held (fun x => x) db := by
  unfold recordDeposit
  rw [Protocol.wp_monad_bind]
  refine Protocol.wp_change (fun db₁ henv₁ _ => ?_) (fun db₁ henv₁ hfree => ?_)
  · -- the payment is known: the deposit stays as it is
    rw [if_neg Bool.false_ne_true, Protocol.wp_monad_bind]
    intro db₂ henv₂
    cases hstored : db₂.deposit (input.source, paymentId) with
    | none =>
      dsimp only
      rw [hstored]
      trivial
    | some stored =>
      dsimp only
      rw [hstored, Protocol.wp_ret]
      dsimp only
      rw [Protocol.wp_monad_bind]
      refine Protocol.wp_change (fun db₃ henv₃ _ => ?_) (fun db₃ henv₃ hnew => ?_)
      · rw [if_neg Bool.false_ne_true]
        exact fun db₄ henv₄ => ⟨Protocol.Guarantee.refl henv₄.inv, rfl, rfl⟩
      · rw [if_pos rfl]
        intro db₄ henv₄
        have hjournal : db₄.postbackTables.journaled input.source postbackId = false := by
          have hsame : db₄.postbackTables.journaled _ _ = db₃.postbackTables.journaled _ _ :=
            henv₄.same _ _ List.mem_cons_self
          have hnew : db₃.journaled input.source postbackId = false := by simpa using hnew
          exact hsame.trans hnew
        refine ⟨guarantee_insertDelivery henv₄.inv
          (fun _ => ⟨postbackId, rfl, hjournal, List.mem_cons_self⟩), hjournal, ?_, rfl, rfl⟩
        obtain ⟨d', hd', _⟩ := (henv₃.trans henv₄.tail).rely.deposits _ stored hstored
        show (db₄.postbackTables.deposit _).isSome = true
        rw [hd']
        rfl
  · rw [if_pos rfl, Protocol.wp_monad_bind]
    refine Protocol.wp_change (fun _ _ _ => trivial) (fun db₂ henv₂ hnew => ?_)
    rw [if_pos rfl]
    intro db₃ henv₃
    have hdeposit : db₃.postbackTables.deposit (input.source, paymentId) = none := by
      have hsame : db₃.postbackTables.deposit _ = db₁.postbackTables.deposit _ :=
        (henv₂.trans henv₃.tail).same _ _ List.mem_cons_self
      exact hsame.trans (Option.isNone_iff_eq_none.mp hfree)
    have hjournal : db₃.postbackTables.journaled input.source postbackId = false := by
      have hsame : db₃.postbackTables.journaled _ _ = db₂.postbackTables.journaled _ _ :=
        henv₃.same _ _ List.mem_cons_self
      have hnew : (!db₂.journaled input.source postbackId) = true := hnew
      exact hsame.trans ((Bool.not_eq_true' _).mp hnew)
    have henv : postbackProtocol.Env held db db₃ := henv₁.trans (henv₂.trans henv₃.tail).tail
    have hrow : postbackProtocol.Guarantee ((.delivery input.source postbackId, .exclusive) ::
        (.deposit (input.source, paymentId), .exclusive) :: held) db₃
        (db₃.insertDeposit (input.depositRow paymentId traderId amount coin account)) := by
      refine guarantee_insertDeposit henv₃.inv hdeposit (List.mem_cons_of_mem _ List.mem_cons_self)
        (fun id hid => ?_)
      obtain ⟨a, rfl, rfl⟩ := Option.map_eq_some_iff.mp hid
      obtain ⟨hlock, ha, rfl⟩ := hlocked a rfl
      refine ⟨⟨.share, List.mem_cons_of_mem _ (List.mem_cons_of_mem _ hlock)⟩, a, ?_,
        attributes_depositRow a⟩
      have hsame : Same .share (.account a.id) db.postbackTables db₃.postbackTables := henv.same _ _ hlock
      exact hsame.1.trans ha
    refine ⟨hrow.trans (guarantee_insertDelivery hrow.inv
      (fun _ => ⟨postbackId, rfl, hjournal, List.mem_cons_self⟩)), ?_⟩
    exact ⟨paymentId, traderId, amount, coin, account, hclassified, rfl, hdeposit, hjournal, rfl, rfl,
      hgrows.trans henv.rely, hbegan⟩

/-- **A delivery is sound.** -/
theorem wp_recordPostback (input : RecordPostbackInput) :
    postbackProtocol.wp (recordPostback input) (CommitsPostback input db) [] (fun x => x) db := by
  unfold recordPostback
  cases hclassified : classifyPostback input.query with
  | rejected reason postbackId event =>
    intro db₁ henv₁
    exact ⟨guarantee_insertDelivery henv₁.inv (fun hp => by cases hp), rfl, rfl⟩
  | deposit postbackId event paymentId traderId amount coin =>
    dsimp only
    rw [Protocol.wp_monad_bind]
    intro db₁ henv₁
    show postbackProtocol.wp (if db₁.journaled input.source postbackId = true then _ else _) _ _ _ _
    split
    · exact fun db₂ henv₂ => ⟨Protocol.Guarantee.refl henv₂.inv, rfl, rfl⟩
    · rw [Protocol.wp_monad_bind]
      -- an account that was there when the transaction began is found
      have hhas : ∀ x, postbackProtocol.Env [] db x → ∀ id a, db.postbackTables.account id = some a →
          a.brokerUserId = traderId →
          ∃ a', x.postbackTables.account id = some a' ∧ a'.brokerUserId = traderId := by
        intro x henv id a ha htrader
        obtain ⟨a', ha', -, htrader', -⟩ := henv.rely.accounts id a ha
        exact ⟨a', ha', htrader'.trans htrader⟩
      have hmissing : ∀ x, postbackProtocol.Env [] db x → x.accountOfBrokerUser traderId = none →
          ∀ id a, db.postbackTables.account id = some a → a.brokerUserId = traderId →
            (none : Option LinkedAccountRow).map (·.id) = some id := by
        intro x henv hnone id a ha htrader
        obtain ⟨a', ha', htrader'⟩ := hhas x henv id a ha htrader
        exact absurd ⟨id, a', ha', htrader'⟩ (not_hasTrader hnone)
      refine Protocol.wp_selectForKey (fun db₂ henv₂ hfind => ?_)
        (fun db₂ db₃ i henv₂ hfind henv₃ hgone => ?_)
        (fun db₂ db₃ i a henv₂ hfind henv₃ ha => ?_)
      · refine wp_recordDeposit hclassified (henv₁.trans henv₂).rely (fun a ha => by cases ha) ?_
        exact hmissing db₂ (henv₁.trans henv₂) (Option.map_eq_none_iff.mp hfind)
      · obtain ⟨b, hb, hbid⟩ := Option.map_eq_some_iff.mp hfind
        obtain ⟨hb, -⟩ := hasTrader_of_find hb
        rw [hbid] at hb
        obtain ⟨a', ha', -⟩ := henv₃.rely.accounts i b hb
        rw [show db₃.postbackTables.account i = none from hgone] at ha'
        cases ha'
      · have hi : a.id = i := Table.key_of_find? ha
        subst hi
        obtain ⟨b, hb, hbid⟩ := Option.map_eq_some_iff.mp hfind
        obtain ⟨hb, htrader⟩ := hasTrader_of_find hb
        rw [hbid] at hb
        obtain ⟨a', ha', -, htrader', -⟩ := henv₃.rely.accounts a.id b hb
        obtain rfl := Option.some.inj (ha'.symm.trans ha)
        have henv : postbackProtocol.Env [] db db₃ := henv₁.trans (henv₂.trans henv₃)
        refine wp_recordDeposit hclassified henv.rely (fun x hx => ?_) (fun id x hx hxtrader => ?_)
        · obtain rfl := Option.some.inj hx
          exact ⟨List.mem_cons_self, ha, htrader'.trans htrader⟩
        · obtain ⟨x', hx', hxtrader'⟩ := hhas db₃ henv id x hx hxtrader
          have hsame := (henv₃.inv : db₃.postbackTables.Ok).traders id a'.id x' a' hx' ha
            (hxtrader'.trans (htrader'.trans htrader).symm)
          rw [hsame]
          rfl

end Deliveries

end Commits

/-! ## Every run -/

inductive PostbackCall
  | recordPostback (input : RecordPostbackInput)
  | linkBrokerAccount (now : UnixMs) (input : LinkBrokerAccountInput)
  | confirmBrokerAccount (now : UnixMs) (telegramUserId : ℕ) (accountId : AccountId)
  | revokeAccount (id : AccountId)
  | recordUserStart (row : UserRow) (referral : Option ReferralRow)
  | setUserStatus (id : UserId) (status : UserStatus)
  | createBonusRuleVersion (code : String) (kind : Option BonusRuleKind) (params : RawParams)
  | activateBonusRuleVersion (code : String) (version : ℕ)
  | deactivateBonusRule (code : String)

/-- A transaction that is no delivery, and its answer is left out. -/
def AccountsTx.other {α : Type} (p : AccountsTx α) : AccountsTx (Option RecordPostbackResult) := do
  let _ ← p
  return none

def PostbackCall.program : PostbackCall → AccountsTx (Option RecordPostbackResult)
  | .recordPostback input => do
    let result ← AccountsTx.recordPostback input
    return some result
  | .linkBrokerAccount now input => (AccountsTx.linkBrokerAccount now input).other
  | .confirmBrokerAccount now telegramUserId accountId =>
    (AccountsTx.confirmBrokerAccount now telegramUserId accountId).other
  | .revokeAccount id => (AccountsTx.revokeAccount id).other
  | .recordUserStart row referral => (AccountsTx.recordUserStart row referral).other
  | .setUserStatus id status => (AccountsTx.setUserStatus id status).other
  | .createBonusRuleVersion code kind params => (AccountsTx.createBonusRuleVersion code kind params).other
  | .activateBonusRuleVersion code version => (AccountsTx.activateBonusRuleVersion code version).other
  | .deactivateBonusRule code => (AccountsTx.deactivateBonusRule code).other

/-- What a transaction that is no delivery answers and commits. -/
def OtherPost (db db' : AccountsDb) : Option RecordPostbackResult → Prop
  | some _ => False
  | none => db.postbackTables.NoNew db'.postbackTables

/-- What each commit does to the deposits and the journal. -/
def PostbackCall.post (call : PostbackCall) (began db db' : AccountsDb)
    (answer : Option RecordPostbackResult) : Prop :=
  match call, answer with
  | .recordPostback input, some result =>
    PostbackPost input began.postbackTables db.postbackTables db'.postbackTables result
  | .recordPostback _, none => False
  | _, answer => OtherPost db db' answer

/-- **The transactions are sound for the protocol.** -/
theorem postback_sound : postbackProtocol.Sound PostbackCall.program PostbackCall.post := by
  have hother : ∀ {α : Type} {p : AccountsTx α} {db : AccountsDb},
      postbackProtocol.wp p CommitsNoNew [] (fun x => x) db →
      postbackProtocol.wp p.other (postbackProtocol.Commits OtherPost) [] (fun x => x) db := by
    intro α p db h
    unfold AccountsTx.other
    rw [Protocol.wp_monad_bind]
    exact Protocol.wp_mono h (fun _ _ _ _ h => h)
  rintro call db hok
  cases call with
  | recordPostback input =>
    refine Protocol.wp_monad_bind.mpr ?_
    exact Protocol.wp_mono (wp_recordPostback input) (fun _ _ _ _ h => h)
  | linkBrokerAccount now input => exact hother (wp_linkBrokerAccount hok input)
  | confirmBrokerAccount now telegramUserId accountId =>
    exact hother (wp_confirmBrokerAccount hok telegramUserId accountId)
  | revokeAccount id => exact hother (wp_revokeAccount id)
  | recordUserStart row referral =>
    exact hother (wp_quiet (frames_recordUserStart row referral) hok (fun _ => rfl))
  | setUserStatus id status => exact hother (wp_quiet (frames_setUserStatus id status) hok (fun _ => rfl))
  | createBonusRuleVersion code kind params =>
    exact hother (wp_quiet (frames_createBonusRuleVersion code kind params) hok (fun _ => rfl))
  | activateBonusRuleVersion code version =>
    exact hother (wp_quiet (frames_activateBonusRuleVersion code version) hok (fun _ => rfl))
  | deactivateBonusRule code =>
    exact hother (wp_quiet (frames_deactivateBonusRule code) hok (fun _ => rfl))

/-- A deposit is as it was, or a committed delivery's. -/
def DepositEventRow.CameFrom (deposit : DepositEventRow) (before : List DepositEventRow)
    (answers : List (PostbackCall × Option RecordPostbackResult)) : Prop :=
  deposit.unowned ∈ before.map DepositEventRow.unowned ∨ ∃ input postbackId event attributed,
    (.recordPostback input, some (.recorded postbackId event deposit.key attributed)) ∈ answers ∧
    input.source = deposit.source ∧
    classifyPostback input.query = .deposit postbackId event deposit.paymentId deposit.brokerUserId
      deposit.amount deposit.currency

theorem DepositEventRow.CameFrom.of_unowned {d d' : DepositEventRow} {before : List DepositEventRow}
    {answers : List (PostbackCall × Option RecordPostbackResult)} (h : d.CameFrom before answers)
    (heq : d'.unowned = d.unowned) : d'.CameFrom before answers := by
  obtain ⟨source, paymentId, brokerUserId, amount, currency, owner, modeSwitch, found⟩ := d
  obtain ⟨source', paymentId', brokerUserId', amount', currency', owner', modeSwitch', found'⟩ := d'
  obtain ⟨rfl, rfl, rfl, rfl, rfl, -, rfl, rfl⟩ := DepositEventRow.mk.inj heq
  exact h

/-- A commit's deposits came from the deliveries committed so far. -/
theorem cameFrom_post {before : List DepositEventRow}
    {answers : List (PostbackCall × Option RecordPostbackResult)}
    {call : PostbackCall} {began db db' : AccountsDb} {answer : Option RecordPostbackResult}
    (hpost : call.post began db db' answer) (h : ∀ d ∈ db.depositEvents, d.CameFrom before answers) :
    ∀ d ∈ db'.depositEvents, d.CameFrom before (answers ++ [(call, answer)]) := by
  have hmore : ∀ d ∈ db.depositEvents, d.CameFrom before (answers ++ [(call, answer)]) := by
    rintro d hd
    rcases h d hd with hold | ⟨input, postbackId, event, attributed, hmem, hrest⟩
    · exact .inl hold
    · exact .inr ⟨input, postbackId, event, attributed, List.mem_append_left _ hmem, hrest⟩
  have hkept : db'.depositEvents = db.depositEvents →
      ∀ d ∈ db'.depositEvents, d.CameFrom before (answers ++ [(call, answer)]) := by
    intro hsame
    rw [hsame]
    exact hmore
  have hnoNew : db.postbackTables.NoNew db'.postbackTables →
      ∀ d ∈ db'.depositEvents, d.CameFrom before (answers ++ [(call, answer)]) := by
    intro hno d hd
    have hmem : d.unowned ∈ db'.depositEvents.map DepositEventRow.unowned := List.mem_map_of_mem hd
    obtain ⟨d₀, hd₀, heq⟩ := List.mem_map.mp (hno.1 ▸ hmem)
    exact (hmore d₀ hd₀).of_unowned heq.symm
  cases call with
  | recordPostback input =>
    cases answer with
    | none => exact hpost.elim
    | some result =>
      cases result with
      | recorded postbackId event key attributed =>
        obtain ⟨paymentId, traderId, amount, coin, account, hclassified, rfl, -, -, hdeposits, -⟩ := hpost
        intro d hd
        rw [show db'.depositEvents = _ from hdeposits] at hd
        rcases List.mem_cons.mp hd with rfl | hd
        · exact .inr ⟨input, postbackId, event, attributed, List.mem_append_right _ List.mem_cons_self, rfl,
            hclassified⟩
        · exact hmore d hd
      | repeated postbackId event key mismatch => exact hkept hpost.2.2.1
      | duplicate postbackId event => exact hkept hpost.1
      | rejected reason postbackId event => exact hkept hpost.1
  | _ =>
    cases answer with
    | none => exact hnoNew hpost
    | some result => exact hpost.elim

/-- Where a run starts: the unique keys, and no delivery has found an account yet. -/
structure PostbackTables.Starts (t : PostbackTables) : Prop where
  deposits : (t.deposits.map DepositEventRow.key).Nodup
  journal : ((t.journal.filter PostbackDeliveryRow.notRejected).map
    (fun delivery => (delivery.source, delivery.postbackId))).Nodup
  traders : ∀ i j a b, t.account i = some a → t.account j = some b → a.brokerUserId = b.brokerUserId → i = j
  found : ∀ d ∈ t.deposits, d.found = none

theorem PostbackTables.Starts.ok {t : PostbackTables} (h : t.Starts) : t.Ok := by
  refine ⟨h.deposits, h.journal, h.traders, fun d hd id hfound => ?_⟩
  rw [h.found d hd] at hfound
  cases hfound

/-- **Postbacks are idempotent and attributed.**  In every interleaving of deliveries with logins,
confirmations, revocations and the other writers: one deposit a payment and one journal row a postback id; a
deposit is a delivery's that committed, and only its attribution is written, once; a duplicate writes
nothing; and the deposit of a delivery that began after its trader's account was there is that account's
owner's from its confirmation on, and nobody's before. -/
theorem postback_idempotence {db : AccountsDb} (h : db.postbackTables.Starts)
    (acts : List (StoreAct PostbackCall)) :
    let step := StoreWorld.act PostbackCall.program
    let w := run step ⟨db, []⟩ acts
    (w.db.depositEvents.map DepositEventRow.key).Nodup ∧
    ((w.db.postbackDeliveries.filter PostbackDeliveryRow.notRejected).map
      (fun delivery => (delivery.source, delivery.postbackId))).Nodup ∧
    (∀ d ∈ w.db.depositEvents,
      d.CameFrom db.depositEvents (StoreWorld.answers PostbackCall.program ⟨db, []⟩ acts)) ∧
    (∀ more key d, w.db.deposit key = some d → ∃ d', (run step w more).db.deposit key = some d' ∧
      d'.unowned = d.unowned ∧ (d.owner ≠ none → d' = d)) ∧
    (∀ i r postbackId event, w.Commits i r (some (.duplicate postbackId event)) →
      (step w (.step i)).db.depositEvents = w.db.depositEvents ∧
      (step w (.step i)).db.postbackDeliveries = w.db.postbackDeliveries) ∧
    (∀ a input e result, w.thrown a = some (.recordPostback input, e) →
      caughtPostback input e = some result →
      (step w a).db = w.db) ∧
    (∀ i r postbackId event key attributed, w.Commits i r (some (.recorded postbackId event key attributed)) →
      ∀ d, (step w (.step i)).db.deposit key = some d →
      ∀ id a, r.began.brokerAccounts.find? id = some a → a.brokerUserId = d.brokerUserId →
      ∀ more, ∃ d' a', (run step (step w (.step i)) more).db.deposit key = some d' ∧
        (run step (step w (.step i)) more).db.brokerAccounts.find? id = some a' ∧ a'.userId = a.userId ∧
        (a'.status = .pending → d'.owner = none) ∧
          (a'.status ≠ .pending → d'.owner = some (a.userId, id))) ∧
    (∀ more id a, w.db.brokerAccounts.find? id = some a → a.status ≠ .pending →
      ∃ a', (run step w more).db.brokerAccounts.find? id = some a' ∧ a'.userId = a.userId ∧
        a'.status ≠ .pending) := by
  intro step w
  have hok : db.postbackTables.Ok := h.ok
  have hworld : Protocol.WorldOk postbackProtocol PostbackCall.post w :=
    postback_sound.run (Protocol.WorldOk.initial hok) acts
  have hw : w.db.postbackTables.Ok := hworld.inv
  have hlater : ∀ more, w.db.postbackTables.Grows (run step w more).db.postbackTables :=
    fun more => postback_sound.rely_run hworld more
  have hstep : ∀ i r answer, w.Commits i r answer → (step w (.step i)).db = r.writes w.db := by
    rintro i r answer ⟨hr, hprog⟩
    show (StoreWorld.act PostbackCall.program w (.step i)).db = _
    simp [StoreWorld.act, hr, StoreWorld.next, hprog]
  refine ⟨hw.deposits, hw.journal, ?_, fun more key d hd => ?_, fun i r postbackId event hc => ?_,
    fun a input e result hthrown _ => ?_, fun i r postbackId event key attributed hc d hd id a ha htrader more => ?_,
    fun more id a ha hne => ?_⟩
  · have hhistory : ∀ d ∈ w.db.depositEvents, d.CameFrom db.depositEvents
        ([] ++ StoreWorld.answers PostbackCall.program ⟨db, []⟩ acts) := postback_sound.history
      (H := fun hist s => ∀ d ∈ s.depositEvents, d.CameFrom db.depositEvents hist)
      (Protocol.WorldOk.initial hok) (fun d hd => .inl (List.mem_map_of_mem hd))
      (fun hist call began s s' answer _ _ _ hpost h => cameFrom_post hpost h) acts
    exact hhistory
  · obtain ⟨d', hd', rfl | ⟨hnone, owner, rfl⟩⟩ := (hlater more).deposits key d hd
    · exact ⟨d', hd', rfl, fun _ => rfl⟩
    · exact ⟨_, hd', rfl, fun howner => absurd hnone howner⟩
  · obtain ⟨-, hpost⟩ := hworld.commits hc
    rw [hstep i r _ hc]
    cases hcall : r.call with
    | recordPostback input =>
      rw [hcall] at hpost
      exact hpost
    | _ =>
      rw [hcall] at hpost
      exact hpost.elim
  · exact StoreWorld.db_of_not_committed (StoreWorld.committed_of_thrown hthrown)
  · obtain ⟨-, hpost⟩ := hworld.commits hc
    cases hcall : r.call with
    | recordPostback input =>
      rw [hcall] at hpost
      obtain ⟨paymentId, traderId, amount, coin, account, -, rfl, -, -, hdeposits, -, hgrows, hbegan⟩ :=
        hpost
      rw [← hstep i r _ hc] at hdeposits
      have hnew : (step w (.step i)).db.deposit (input.source, paymentId) =
          some (input.depositRow paymentId traderId amount coin account) := by
        show rowAt DepositEventRow.key (step w (.step i)).db.depositEvents _ = _
        rw [show (step w (.step i)).db.depositEvents = _ from hdeposits, rowAt_cons]
        exact if_pos rfl
      obtain rfl := Option.some.inj (hnew.symm.trans hd)
      have hnext : Protocol.WorldOk postbackProtocol PostbackCall.post (step w (.step i)) :=
        postback_sound.act hworld (.step i)
      have hgrows' := postback_sound.rely_run hnext more
      have hfinal := (postback_sound.run hnext more).inv
      obtain ⟨d', hd', hcase⟩ := hgrows'.deposits _ _ hd
      have hfound : d'.found = some id := by
        rcases hcase with rfl | ⟨-, owner, rfl⟩
        · exact hbegan id a ha htrader
        · exact hbegan id a ha htrader
      obtain ⟨a', ha', -, hnone, hsome⟩ := hfinal.attributed d' (mem_of_rowAt hd') id hfound
      have hbetween : r.began.postbackTables.Grows (run step (step w (.step i)) more).db.postbackTables :=
        (hgrows.trans (hworld.rely_act (.step i))).trans hgrows'
      obtain ⟨a'', ha'', huser, -⟩ := hbetween.accounts id a ha
      obtain rfl := Option.some.inj (ha''.symm.trans ha')
      refine ⟨d', a'', hd', ha', huser, hnone, fun hne => ?_⟩
      rw [hsome hne, huser, show a''.id = id from Table.key_of_find? ha']
    | _ =>
      rw [hcall] at hpost
      exact hpost.elim
  · obtain ⟨a', ha', huser, -, hstatus⟩ := (hlater more).accounts id a ha
    exact ⟨a', ha', huser, hstatus hne⟩

/-- A user with a pending account. -/
def pendingStore : AccountsDb where
  users := ⟨[newUserRow 7 700], List.nodup_singleton _⟩
  brokerAccounts := ⟨[⟨1, 7, "t".toList, false, .pending, false⟩], List.nodup_singleton _⟩
  referrals := []
  bonusRules := []
  bonusLedger := []
  depositEvents := []
  postbackDeliveries := []
  tradingSessions := .empty
  tradingSwitch := none

/-- A delivery of the trader's deposit. -/
def traderPostback : RecordPostbackInput where
  source := .binodex
  query := [("id", "p".toList), ("event", "deposit".toList), ("payment_id", "42".toList), ("a", "t".toList),
    ("amount", "10".toList)]
  secretKeyId := "k".toList

/-- The delivery shares the account, the confirmation waits for it, and attaches its deposit. -/
def confirmedMeanwhile : List (StoreAct PostbackCall) :=
  .start (.recordPostback traderPostback) :: List.replicate 3 (.step 0) ++
    .start (.confirmBrokerAccount 0 700 1) :: List.replicate 9 (.step 1) ++ List.replicate 9 (.step 0) ++
    List.replicate 15 (.step 1)

theorem pendingStore_starts : pendingStore.postbackTables.Starts := by
  have hone : ∀ k c, pendingStore.postbackTables.account k = some c → k = 1 := by
    intro k c hc
    have hmem := Table.mem_of_find? hc
    have hkey : c.id = k := Table.key_of_find? hc
    obtain rfl := List.mem_singleton.mp hmem
    exact hkey.symm
  refine ⟨List.nodup_nil, List.nodup_nil, fun i j a b ha hb _ => ?_, fun d hd => absurd hd List.not_mem_nil⟩
  rw [hone i a ha, hone j b hb]

theorem postback_idempotence_confirmed :
    ((run (StoreWorld.act PostbackCall.program) ⟨pendingStore, []⟩ confirmedMeanwhile).db.depositEvents.map
      DepositEventRow.key).Nodup :=
  (postback_idempotence pendingStore_starts confirmedMeanwhile).1

example : (run (StoreWorld.act PostbackCall.program) ⟨pendingStore, []⟩ confirmedMeanwhile).db.depositEvents.map
    DepositEventRow.owner = [some (7, 1)] := by decide +kernel

end Binarius
