import Mathlib.Tactic
import Binarius.Db.ModeWriters

/-!
# Db.ModeRuns — every interleaving of the mode's writers and the sessions'
(packages/db/src: user-ops.ts, deposit-mode-switch-ops.ts, trading-session-ops.ts)

* `ModePost`: what a commit does to the modes, the outcomes and the sessions.
* `mode_setTradingMode`, `mode_switchTradingModeOnDeposit`, `mode_createTradingSession`.
* `sessions_run_in_their_owners_mode`: **an active session is in its owner's mode, over any run**.
* `deposits_closed_once`, `superseded_deposits_stay_closed`, `mode_changes_have_a_cause`.
-/

namespace Binarius

open Lib

/-! ## What a commit does -/

inductive ModeCall
  | setTradingMode (telegramUserId : ℕ) (mode : TradeMode)
  | switchTradingModeOnDeposit (depositEventId : DepositKey) (demoOnly : Bool)
  | createTradingSession (input : CreateTradingSessionInput) (demoOnly : Bool)
  | stopTradingSession (id : SessionId)
  | linkBrokerAccount (now : UnixMs) (input : LinkBrokerAccountInput)
  | confirmBrokerAccount (now : UnixMs) (telegramUserId : ℕ) (accountId : AccountId)
  | recordPostback (input : RecordPostbackInput)
  | recordUserStart (id : UserId) (telegramUserId : ℕ) (referral : Option ReferralRow)
  | setUserStatus (id : UserId) (status : UserStatus)
  | revokeAccount (id : AccountId)
  | haltAccountForManualReview (id : AccountId) (reviewed : Bool)

inductive ModeReply
  | mode (result : Option SetTradingModeResult)
  | attempt (attempt : DepositModeSwitchAttempt)
  | started (session : TradingSessionRow)
  | stopped (stopped : Bool)
  | done

/-- A transaction of another writer, and its answer is left out. -/
def AccountsTx.leaving {α : Type} (p : AccountsTx α) : AccountsTx ModeReply := do
  let _ ← p
  return .done

def ModeCall.program : ModeCall → AccountsTx ModeReply
  | .setTradingMode telegramUserId mode => do
    let result ← AccountsTx.setTradingMode telegramUserId mode
    return .mode result
  | .switchTradingModeOnDeposit depositEventId demoOnly => do
    let attempt ← AccountsTx.switchTradingModeOnDeposit depositEventId demoOnly
    return .attempt attempt
  | .createTradingSession input demoOnly => do
    let session ← AccountsTx.createTradingSession input demoOnly
    return .started session
  | .stopTradingSession id => do
    let stopped ← AccountsTx.stopTradingSession id
    return .stopped stopped
  | .linkBrokerAccount now input => (AccountsTx.linkBrokerAccount now input).leaving
  | .confirmBrokerAccount now telegramUserId accountId =>
    (AccountsTx.confirmBrokerAccount now telegramUserId accountId).leaving
  | .recordPostback input => (AccountsTx.recordPostback input).leaving
  | .recordUserStart id telegramUserId referral =>
    (AccountsTx.recordUserStart (newUserRow id telegramUserId) referral).leaving
  | .setUserStatus id status => (AccountsTx.setUserStatus id status).leaving
  | .revokeAccount id => (AccountsTx.revokeAccount id).leaving
  | .haltAccountForManualReview id reviewed => (AccountsTx.haltAccountForManualReview id reviewed).leaving

namespace ModeTables

/-- A switch of the mode: it is a change, the sessions stopped were active, the deposits closed waited and
are the user's. -/
structure ModeChange (uid : UserId) (mode : TradeMode) (outcome : DepositModeSwitch)
    (stopped : List SessionId)
    (marked : List DepositKey) (t t' : ModeTables) : Prop where
  eq : t' = t.changed uid mode outcome stopped marked
  user : ∃ u, t.user uid = some u ∧ u.tradingMode ≠ mode
  active : ∀ i ∈ stopped, ∃ s, t.session i = some s ∧ s.status = .active
  waiting : ∀ k ∈ marked, ∃ d, t.deposit k = some d ∧ d.modeSwitch = none ∧ d.owner.any (fun o => o.1 = uid)

/-- A user of this Telegram account. -/
def HasTelegram (telegramUserId : ℕ) (uid : UserId) (t : ModeTables) : Prop :=
  ∃ u, t.user uid = some u ∧ u.telegramUserId = telegramUserId

/-- The deposit was attributed to the user. -/
def Attributed (t : ModeTables) (k : DepositKey) (uid : UserId) : Prop :=
  ∃ d, t.deposit k = some d ∧ d.owner.any (fun o => o.1 = uid) = true

/-- What the start of a session found, and what is so at its commit. -/
structure Startable (input : CreateTradingSessionInput) (demoOnly : Bool) (t : ModeTables) : Prop where
  fresh : t.session input.newSessionId = none
  account : ∃ a u, t.account input.brokerAccountId = some a ∧ a.status = .active ∧ a.tradingHalted = false ∧
    t.user a.userId = some u ∧ u.telegramUserId = input.telegramUserId ∧ u.status = .active ∧
    u.tradingMode = input.mode
  alone : ∀ id s, t.session id = some s → s.status = .active → s.brokerAccountId ≠ input.brokerAccountId
  allowed : demoOnly = true → input.mode = .demo

/-- What a switch after a deposit found, and what is so at its commit. -/
structure Switchable (k : DepositKey) (uid : UserId) (t : ModeTables) : Prop where
  user : ∃ u, t.user uid = some u ∧ u.status ≠ .blocked ∧ u.tradingMode = .demo
  attributed : t.Attributed k uid
  idle : ∀ id s, t.session id = some s → t.ownerOf s.brokerAccountId = some uid → s.status = .stopped

end ModeTables

open ModeTables in
/-- What a commit does to the modes, the outcomes and the sessions. -/
def ModePost (call : ModeCall) (began t t' : ModeTables) (reply : ModeReply) : Prop :=
  match call, reply with
  | .setTradingMode telegramUserId mode, .mode result =>
    if result.any (·.changed) then
      ∃ uid stopped marked, ModeChange uid mode .superseded stopped marked t t' ∧
        t.HasTelegram telegramUserId uid ∧
        result = some { tradingMode := mode, changed := true, stoppedSessions := stopped.length } ∧
        (∀ k, began.Attributed k uid → (t'.outcome k).isSome)
    else t' = t
  | .switchTradingModeOnDeposit k demoOnly, .attempt attempt =>
    match attempt with
    | .closed .switched => demoOnly = false ∧
        ∃ uid, ModeChange uid .real .switched [] [k] t t' ∧ t.Switchable k uid
    | .closed outcome => (t.deposit k).any (fun d => d.modeSwitch.isNone) ∧
        t' = t.setDeposit k (ModeDeposit.closed outcome)
    | _ => t' = t
  | .createTradingSession input demoOnly, .started session =>
    session = input.row ∧ t.Startable input demoOnly ∧ t' = t.addSession session
  | .stopTradingSession id, .stopped stopped =>
    if stopped then (t.session id).any (fun s => s.status = .active) ∧ t' = t.stopSession id else t' = t
  | .setTradingMode _ _, _ => False
  | .switchTradingModeOnDeposit _ _, _ => False
  | .createTradingSession _ _, _ => False
  | .stopTradingSession _, _ => False
  | _, .done => t.Leaves t'
  | _, _ => False

section Programs

open AccountsTx TxProg ModeTables

variable {held : List (AccountsLock × LockMode)} {db : AccountsDb} {writes : AccountsDb → AccountsDb}
  {t t' : ModeTables} {uid : UserId} {mode : TradeMode} {outcome : DepositModeSwitch}
  {stopped : List SessionId} {marked : List DepositKey}

/-! ### The steps of a switch -/

theorem changed_nil (t : ModeTables) (uid : UserId) (mode : TradeMode) (outcome : DepositModeSwitch) :
    t.changed uid mode outcome [] [] = t.setUser uid (fun u => { u with tradingMode := mode }) := by
  unfold ModeTables.changed ModeTables.setUser
  congr 1

theorem session_changed {i : SessionId} (h : i ∉ stopped) :
    (t.changed uid mode outcome stopped marked).session i = t.session i := if_neg h

theorem deposit_changed {k : DepositKey} (h : k ∉ marked) :
    (t.changed uid mode outcome stopped marked).deposit k = t.deposit k := if_neg h

theorem stopSession_changed (i : SessionId) :
    (t.changed uid mode outcome stopped marked).stopSession i =
      t.changed uid mode outcome (stopped ++ [i]) marked := by
  unfold ModeTables.changed ModeTables.stopSession
  congr 1
  funext j
  show modifyKey i _ (fun j => if j ∈ stopped then _ else _) j = _
  unfold modifyKey
  by_cases hi : i = j
  · subst hi
    by_cases hmem : i ∈ stopped
    · simp only [hmem, if_true, List.mem_append, true_or, Option.map_map]
      exact congrArg (Option.map · (t.session i)) (funext fun _ => rfl)
    · simp [hmem]
  · have hne : j ≠ i := Ne.symm hi
    simp [hi, hne]

theorem closeDeposit_changed (k : DepositKey) :
    (t.changed uid mode outcome stopped marked).setDeposit k (ModeDeposit.closed outcome) =
      t.changed uid mode outcome stopped (marked ++ [k]) := by
  unfold ModeTables.changed ModeTables.setDeposit
  congr 1
  funext j
  show modifyKey k _ (fun j => if j ∈ marked then _ else _) j = _
  unfold modifyKey
  by_cases hk : k = j
  · subst hk
    by_cases hmem : k ∈ marked
    · simp only [hmem, if_true, List.mem_append, true_or, Option.map_map]
      exact congrArg (Option.map · (t.deposit k)) (funext fun _ => rfl)
    · simp [hmem]
  · have hne : j ≠ k := Ne.symm hk
    simp [hk, hne]

/-- The row of a lookup, in the tables. -/
theorem modeTables_user {id : UserId} {user : UserRow} (h : db.users.find? id = some user) :
    db.modeTables.user id = some user.modeUser := congrArg (Option.map UserRow.modeUser) h

theorem modeTables_account {id : AccountId} {account : LinkedAccountRow}
    (h : db.brokerAccounts.find? id = some account) : db.modeTables.account id = some account.modeAccount :=
  congrArg (Option.map LinkedAccountRow.modeAccount) h

theorem modeTables_deposit {k : DepositKey} {deposit : DepositEventRow} (h : db.deposit k = some deposit) :
    db.modeTables.deposit k = some deposit.modeDeposit :=
      congrArg (Option.map DepositEventRow.modeDeposit) h

theorem ModeTables.HasTelegram.grows {telegramUserId : ℕ} (h : t.HasTelegram telegramUserId uid)
    (hgrows : t.Grows t') :
    t'.HasTelegram telegramUserId uid := by
  obtain ⟨u, hu, htelegram⟩ := h
  obtain ⟨u', hu', heq⟩ := hgrows.users uid u hu
  exact ⟨u', hu', heq.trans htelegram⟩

theorem ModeTables.Attributed.grows {k : DepositKey} (h : t.Attributed k uid) (hgrows : t.Grows t') :
    t'.Attributed k uid := by
  obtain ⟨d, hd, howner⟩ := h
  obtain ⟨d', hd', hkept⟩ := hgrows.deposits k d hd
  obtain ⟨o, ho, huid⟩ := (Option.any_eq_true _ _).mp howner
  refine ⟨d', hd', ?_⟩
  rw [hkept.owner o ho]
  exact huid

/-- An outcome is written once. -/
theorem outcome_grows {k : DepositKey} {o : DepositModeSwitch} (h : t.outcome k = some o)
    (hgrows : t.Grows t') :
    t'.outcome k = some o := by
  obtain ⟨d, hd, ho⟩ := Option.bind_eq_some_iff.mp h
  obtain ⟨d', hd', hkept⟩ := hgrows.deposits k d hd
  exact Option.bind_eq_some_iff.mpr ⟨d', hd', hkept.modeSwitch o ho⟩

theorem outcome_isSome_grows {k : DepositKey} (h : (t.outcome k).isSome) (hgrows : t.Grows t') :
    (t'.outcome k).isSome := by
  obtain ⟨o, ho⟩ := Option.isSome_iff_exists.mp h
  rw [outcome_grows ho hgrows]
  rfl

theorem userOfTelegram_tables {telegramUserId : ℕ}
    (h : (db.userOfTelegram telegramUserId).map (·.id) = some uid) :
    db.modeTables.HasTelegram telegramUserId uid := by
  obtain ⟨user, huser, rfl⟩ := Option.map_eq_some_iff.mp h
  have hfind : db.users.find? user.id = some user := Table.find?_of_mem (List.mem_of_find?_eq_some huser)
  have htelegram : user.telegramUserId = telegramUserId := by simpa using List.find?_some huser
  exact ⟨user.modeUser, modeTables_user hfind, htelegram⟩

/-- The join finds every active session of the user. -/
theorem mem_activeSessionsOf {telegramUserId : ℕ} {i : SessionId} {s : TradingSessionRow}
    (hs : db.modeTables.session i = some s) (hactive : s.status = .active)
    (howner : db.modeTables.ownerOf s.brokerAccountId = some uid)
    (huser : db.modeTables.HasTelegram telegramUserId uid) : i ∈ db.activeSessionsOf telegramUserId := by
  obtain ⟨a, ha, hid⟩ := Option.map_eq_some_iff.mp howner
  obtain ⟨account, haccount, rfl⟩ := Option.map_eq_some_iff.mp ha
  obtain ⟨u, hu, htelegram⟩ := huser
  obtain ⟨user, hfind, rfl⟩ := Option.map_eq_some_iff.mp hu
  have hfind : db.users.find? account.userId = some user := by
    rw [show account.userId = uid from hid]
    exact hfind
  have hid : s.id = i := Table.key_of_find? (t := db.tradingSessions) hs
  refine List.mem_map.mpr ⟨s, List.mem_filter.mpr ⟨Table.mem_of_find? (t := db.tradingSessions) hs, ?_⟩,
    hid⟩
  have htelegram : user.telegramUserId = telegramUserId := htelegram
  simp [hactive, AccountsDb.sessionUser, haccount, hfind, htelegram]

theorem session_of_activeSessionsOf {telegramUserId : ℕ} {i : SessionId}
    (h : i ∈ db.activeSessionsOf telegramUserId) : ∃ s, db.modeTables.session i = some s := by
  obtain ⟨s, hs, rfl⟩ := List.mem_map.mp h
  exact ⟨s, Table.find?_of_mem (List.mem_filter.mp hs).1⟩

theorem mem_awaitingModeSwitch {k : DepositKey} {d : ModeDeposit} (hd : db.modeTables.deposit k = some d)
    (howner : d.owner.any (fun o => o.1 = uid) = true) (hwaiting : d.modeSwitch = none) :
    k ∈ db.awaitingModeSwitch uid := by
  obtain ⟨deposit, hdeposit, rfl⟩ := Option.map_eq_some_iff.mp hd
  refine List.mem_map.mpr ⟨deposit, List.mem_filter.mpr ⟨mem_of_rowAt hdeposit, ?_⟩, key_of_rowAt hdeposit⟩
  have hwaiting : deposit.modeSwitch = none := hwaiting
  have howner : deposit.owner.any (fun o => o.1 = uid) = true := howner
  simp [howner, hwaiting]

/-- The active sessions of the user are stopped, each under its lock: at the commit none is left. -/
theorem wp_stopUserSessions {telegramUserId : ℕ} {G : ModeTables → Prop}
    {Q : List SessionId → List (AccountsLock × LockMode) → (AccountsDb → AccountsDb) → AccountsDb → Prop}
    (h : Protocol.Tracks modeView (fun a b => ModeChange uid mode outcome [] [] a.modeTables b.modeTables ∧
      G a.modeTables) held writes db)
    (hlock : (.user uid, .exclusive) ∈ held) (htelegram : db.modeTables.HasTelegram telegramUserId uid)
    (hQ : ∀ stopped held' writes' db', (∀ p ∈ held, p ∈ held') →
      (∀ i ∈ stopped, (.session i, .exclusive) ∈ held') → modeProtocol.Env held db db' →
      Protocol.Tracks modeView (fun a b => ModeChange uid mode outcome stopped [] a.modeTables
        b.modeTables ∧
        G a.modeTables ∧ ∀ i s, a.modeTables.session i = some s → s.status = .active →
          a.modeTables.ownerOf s.brokerAccountId = some uid → i ∈ stopped) held' writes' db' →
      Q stopped held' writes' db') :
    modeProtocol.wp (stopUserSessions telegramUserId) Q held writes db := by
  intro db₁ henv₁
  have h₁ := h.env henv₁
  have heq : (writes db₁).modeTables = _ := h₁.now.1.eq
  -- the snapshot has every active session that the user has at the commit
  have hall : ∀ a, modeProtocol.Env held db₁ a → ∀ i s, a.modeTables.session i = some s → s.status =
    .active →
      a.modeTables.ownerOf s.brokerAccountId = some uid → i ∈ (writes db₁).activeSessionsOf
        telegramUserId := by
    intro a henv i s hs hactive howner
    have hnone : NoneStarted uid db₁.modeTables a.modeTables := (henv.same _ _ hlock).2
    obtain ⟨hs₁, howner₁⟩ := hnone i s hs (fun hstopped => by rw [hactive] at hstopped; cases hstopped) howner
    have howner' : (writes db₁).modeTables.ownerOf s.brokerAccountId = some uid := by
      rw [heq]
      exact howner₁
    refine mem_activeSessionsOf ?_ hactive howner' ?_
    · rw [heq]
      exact (session_changed List.not_mem_nil).trans hs₁
    · rw [heq, changed_nil]
      obtain ⟨u, hu, htelegram⟩ := htelegram.grows henv₁.rely
      obtain ⟨u', hu', rfl | rfl⟩ := modifyKey_isSome uid uid (fun u => { u with tradingMode := mode }) _ hu
      · exact ⟨_, hu', htelegram⟩
      · exact ⟨_, hu', htelegram⟩
  have hthere : ∀ i ∈ (writes db₁).activeSessionsOf telegramUserId, ∃ s, db₁.modeTables.session i =
    some s := by
    intro i hi
    obtain ⟨s, hs⟩ := session_of_activeSessionsOf hi
    rw [heq] at hs
    exact ⟨s, (session_changed List.not_mem_nil).symm.trans hs⟩
  have h₂ := (h₁.learn _ hall).learn (fun a => ∀ i ∈ (writes db₁).activeSessionsOf telegramUserId,
    ∃ s, a.modeTables.session i = some s) (fun a henv i hi => by
      obtain ⟨s, hs⟩ := hthere i hi
      rcases henv.rely.sessions i s hs with hs' | ⟨_, hs'⟩
      · exact ⟨_, hs'⟩
      · exact ⟨_, hs'⟩)
  refine Protocol.Tracks.wp_changeAll (fun stopped seen a b =>
      (ModeChange uid mode outcome stopped [] a.modeTables b.modeTables ∧ G a.modeTables ∧
        ∀ i s, a.modeTables.session i = some s → s.status = .active →
          a.modeTables.ownerOf s.brokerAccountId = some uid →
          i ∈ (writes db₁).activeSessionsOf telegramUserId) ∧
      (∀ i ∈ (writes db₁).activeSessionsOf telegramUserId, ∃ s, a.modeTables.session i = some s) ∧
      ∀ i ∈ seen, i ∉ stopped → ∀ s, a.modeTables.session i = some s → s.status ≠ .active)
    (· ∈ (writes db₁).activeSessionsOf telegramUserId) (h₂.mono fun a b _ hE => ?_) (fun _ hi => hi)
    (fun i a b hab => ?_) (fun i => (local_stopSession i).comap (AccountsDb.modeTables_stopSession i))
    (fun stopped seen i a b _ hE hp => ?_) (fun stopped seen i a₀ b₀ a b hi hE₀ hp hrely hE => ?_)
    (fun stopped held' writes' db' hsub hlocks henv h' =>
      hQ stopped held' writes' db' hsub hlocks (henv₁.trans henv) (h'.mono fun a b _ hE => ?_))
  · exact ⟨⟨hE.1.1.1, hE.1.1.2, hE.1.2⟩, hE.2, fun _ hmem => absurd hmem List.not_mem_nil⟩
  · exact congrArg (Option.any _) hab
  · obtain ⟨⟨hchange, hG, hids⟩, hex, hseen⟩ := hE
    obtain ⟨s, hs, hactive⟩ := (Option.any_eq_true _ _).mp hp
    have hactive : s.status = .active := of_decide_eq_true hactive
    have hs : b.modeTables.session i = some s := hs
    rw [hchange.eq] at hs
    have hi : i ∉ stopped := by
      intro hi
      obtain ⟨s₀, -, rfl⟩ := Option.map_eq_some_iff.mp ((if_pos hi).symm.trans hs)
      cases hactive
    have hs : a.modeTables.session i = some s := (session_changed hi).symm.trans hs
    refine ⟨⟨⟨?_, hchange.user, fun j hj => ?_, hchange.waiting⟩, hG, hids⟩, hex, fun j hj hnot => ?_⟩
    · rw [AccountsDb.modeTables_stopSession, hchange.eq, stopSession_changed]
    · rcases List.mem_append.mp hj with hj | hj
      · exact hchange.active j hj
      · obtain rfl := List.mem_singleton.mp hj
        exact ⟨s, hs, hactive⟩
    · rw [List.mem_append, not_or] at hnot
      rcases List.mem_append.mp hj with hj | hj
      · exact hseen j hj hnot.1
      · exact absurd hj hnot.2
  · obtain ⟨hfirst, hex, hseen⟩ := hE
    refine ⟨hfirst, hex, fun j hj hnot s hs => ?_⟩
    rcases List.mem_append.mp hj with hj | hj
    · exact hseen j hj hnot s hs
    · -- it was not active when it was locked, and is not again
      obtain rfl := List.mem_singleton.mp hj
      obtain ⟨s₀, hs₀⟩ := hE₀.2.1 j hi
      have hb₀ : b₀.modeTables.session j = some s₀ := by
        rw [hE₀.1.1.eq]
        exact (session_changed hnot).trans hs₀
      have hne : s₀.status ≠ .active := by
        intro hactive
        have hp : (b₀.modeTables.session j).any (fun session => session.status = .active) = false := hp
        rw [hb₀] at hp
        simp [hactive] at hp
      obtain rfl := Option.some.inj ((hrely.inactive hs₀ hne).symm.trans hs)
      exact hne
  · obtain ⟨⟨hchange, hG, hids⟩, -, hseen⟩ := hE
    refine ⟨hchange, hG, fun i s hs hactive howner => ?_⟩
    by_contra hnot
    exact hseen i (hids i s hs hactive howner) hnot s hs hactive

/-- The user's waiting deposits are closed: at the commit those known to be the user's have an outcome. -/
theorem wp_markUserDepositModeSwitches {G : ModeTables → Prop} {K : DepositKey → Prop}
    {Q : List DepositKey → List (AccountsLock × LockMode) → (AccountsDb → AccountsDb) → AccountsDb → Prop}
    (h : Protocol.Tracks modeView (fun a b => ModeChange uid mode outcome stopped [] a.modeTables
      b.modeTables ∧
      G a.modeTables) held writes db)
    (hK : ∀ k, K k → db.modeTables.Attributed k uid)
    (hQ : ∀ marked held' writes' db', (∀ p ∈ held, p ∈ held') →
      (∀ k ∈ marked, (.deposit k, .exclusive) ∈ held') →
      Protocol.Tracks modeView (fun a b => ModeChange uid mode outcome stopped marked a.modeTables
        b.modeTables ∧
        G a.modeTables ∧ ∀ k, K k → (b.modeTables.outcome k).isSome) held' writes' db' →
      Q marked held' writes' db') :
    modeProtocol.wp (markUserDepositModeSwitches uid outcome) Q held writes db := by
  intro db₁ henv₁
  have h₁ := h.env henv₁
  have heq : (writes db₁).modeTables = _ := h₁.now.1.eq
  have hdeposit : ∀ k, (writes db₁).modeTables.deposit k = db₁.modeTables.deposit k := by
    intro k
    rw [heq]
    exact deposit_changed List.not_mem_nil
  -- a deposit of the user that the snapshot leaves out has its outcome
  have hrest : ∀ a, modeProtocol.Env held db₁ a → ∀ k, K k → a.modeTables.Attributed k uid ∧
      (k ∈ (writes db₁).awaitingModeSwitch uid ∨ (a.modeTables.outcome k).isSome) := by
    intro a henv k hk
    have hattributed := (hK k hk).grows henv₁.rely
    refine ⟨hattributed.grows henv.rely, ?_⟩
    obtain ⟨d, hd, howner⟩ := hattributed
    cases hswitch : d.modeSwitch with
    | none => exact .inl (mem_awaitingModeSwitch ((hdeposit k).trans hd) howner hswitch)
    | some o =>
      refine .inr (outcome_isSome_grows (t := db₁.modeTables) ?_ henv.rely)
      show ((db₁.modeTables.deposit k).bind _).isSome
      rw [hd]
      exact Option.isSome_iff_exists.mpr ⟨o, hswitch⟩
  have hclosed : ∀ {marked : List DepositKey} {t : ModeTables} {k : DepositKey}, (t.outcome k).isSome →
      ((t.changed uid mode outcome stopped marked).outcome k).isSome := by
    intro marked t k hk
    show Option.isSome (Option.bind (if k ∈ marked then _ else _) _) = true
    split
    · obtain ⟨o, ho⟩ := Option.isSome_iff_exists.mp hk
      obtain ⟨d, hd, -⟩ := Option.bind_eq_some_iff.mp ho
      rw [hd]
      rfl
    · exact hk
  refine Protocol.Tracks.wp_changeAll (fun marked seen a b =>
      (ModeChange uid mode outcome stopped marked a.modeTables b.modeTables ∧ G a.modeTables) ∧
      (∀ k, K k → a.modeTables.Attributed k uid ∧
        (k ∈ (writes db₁).awaitingModeSwitch uid ∨ (a.modeTables.outcome k).isSome)) ∧
      ∀ k ∈ seen, K k → (b.modeTables.outcome k).isSome)
    (fun _ => True) ((h₁.learn _ hrest).mono fun a b _ hE => ?_) (fun _ _ => trivial)
    (fun k a b hab => ?_)
    (fun k => (local_setDeposit k _).comap
      (AccountsDb.modeTables_updateDeposit (g := ModeDeposit.closed outcome)
        (fun _ => by rfl) (fun _ => by rfl)))
    (fun marked seen k a b _ hE hp => ?_) (fun marked seen k a₀ b₀ a b _ hE₀ hp hrely hE => ?_)
    (fun marked held' writes' db' hsub hlocks henv h' =>
      hQ marked held' writes' db' hsub hlocks (h'.mono fun a b _ hE => ?_))
  · exact ⟨hE.1, hE.2, fun _ hmem => absurd hmem List.not_mem_nil⟩
  · have hany := fun x => AccountsDb.any_modeDeposit
      (fun d => d.owner.any (fun owner => owner.1 = uid) && d.modeSwitch.isNone) x k
    exact (hany b).symm.trans ((congrArg (Option.any _) hab).trans (hany a))
  · obtain ⟨⟨hchange, hG⟩, hrest, hseen⟩ := hE
    obtain ⟨deposit, hdeposit, hwaits⟩ := (Option.any_eq_true _ _).mp hp
    rw [Bool.and_eq_true] at hwaits
    have hd : b.modeTables.deposit k = some deposit.modeDeposit := modeTables_deposit hdeposit
    have hnone : deposit.modeSwitch = none := Option.isNone_iff_eq_none.mp hwaits.2
    have hafter : (AccountsDb.updateDeposit k (DepositEventRow.closed outcome) b).modeTables =
        b.modeTables.setDeposit k (ModeDeposit.closed outcome) :=
      AccountsDb.modeTables_updateDeposit (fun _ => by rfl) (fun _ => by rfl) b
    have hk : k ∉ marked := by
      intro hk
      rw [hchange.eq] at hd
      obtain ⟨d, -, heq⟩ := Option.map_eq_some_iff.mp ((if_pos hk).symm.trans hd)
      have hswitch : some outcome = deposit.modeSwitch := congrArg ModeDeposit.modeSwitch heq
      rw [hnone] at hswitch
      cases hswitch
    have ha : a.modeTables.deposit k = some deposit.modeDeposit := by
      rw [hchange.eq] at hd
      exact (deposit_changed hk).symm.trans hd
    rw [hafter, hchange.eq, closeDeposit_changed]
    refine ⟨⟨⟨rfl, hchange.user, hchange.active, fun j hj => ?_⟩, hG⟩, hrest, fun j hj hKj => ?_⟩
    · rcases List.mem_append.mp hj with hj | hj
      · exact hchange.waiting j hj
      · obtain rfl := List.mem_singleton.mp hj
        exact ⟨_, ha, hnone, hwaits.1⟩
    · by_cases hjk : j = k
      · subst hjk
        show Option.isSome (Option.bind (if j ∈ marked ++ [j] then _ else _) _) = true
        rw [if_pos (List.mem_append_right _ List.mem_cons_self), ha]
        rfl
      · have hj : j ∈ seen := by
          rcases List.mem_append.mp hj with hj | hj
          · exact hj
          · exact absurd (List.mem_singleton.mp hj) hjk
        have hold := hseen j hj hKj
        rw [hchange.eq] at hold
        rw [← closeDeposit_changed]
        show Option.isSome (Option.bind (modifyKey k _ _ j) _) = true
        rw [modifyKey_ne (Ne.symm hjk)]
        exact hold
  · obtain ⟨hfirst, hrest, hseen⟩ := hE
    refine ⟨hfirst, hrest, fun j hj hKj => ?_⟩
    rcases List.mem_append.mp hj with hj | hj
    · exact hseen j hj hKj
    · -- it had its outcome when it was locked
      obtain rfl := List.mem_singleton.mp hj
      obtain ⟨d, hd, howner⟩ := (hE₀.2.1 j hKj).1
      rw [hfirst.1.eq]
      by_cases hmem : j ∈ marked
      · obtain ⟨d', hd', -⟩ := (hrest j hKj).1
        show Option.isSome (Option.bind (if j ∈ marked then _ else _) _) = true
        rw [if_pos hmem, hd']
        rfl
      · refine hclosed (outcome_isSome_grows (t := a₀.modeTables) ?_ hrely)
        have hp : (b₀.deposit j).any (fun deposit => deposit.owner.any (fun owner => owner.1 = uid) &&
          deposit.modeSwitch.isNone) = false := hp
        have hany := AccountsDb.any_modeDeposit
          (fun d => d.owner.any (fun owner => owner.1 = uid) && d.modeSwitch.isNone) b₀ j
        have hb₀ : b₀.modeTables.deposit j = some d := by
          rw [hE₀.1.1.eq]
          exact (deposit_changed hmem).trans hd
        rw [hb₀, Option.any_some, howner, Bool.true_and] at hany
        have hsome : d.modeSwitch.isNone = false := hany.trans hp
        show ((a₀.modeTables.deposit j).bind _).isSome
        rw [hd]
        show d.modeSwitch.isSome = true
        cases hswitch : d.modeSwitch with
        | none => rw [hswitch] at hsome; cases hsome
        | some o => rfl
  · obtain ⟨⟨hchange, hG⟩, hrest, hseen⟩ := hE
    refine ⟨hchange, hG, fun k hk => ?_⟩
    rcases (hrest k hk).2 with hmem | hsome
    · exact hseen k hmem hk
    · rw [hchange.eq]
      exact hclosed hsome

/-! ### The calls -/

abbrev CommitsMode (call : ModeCall) (began : AccountsDb) (reply : ModeReply) :
    List (AccountsLock × LockMode) → (AccountsDb → AccountsDb) → AccountsDb → Prop :=
  modeProtocol.Commits (fun a b reply => ModePost call began.modeTables a.modeTables b.modeTables reply)
    reply

/-- A transaction that has written nothing. -/
theorem tracks_start (hok : modeProtocol.inv db) :
    Protocol.Tracks modeView (fun a b => b.modeTables = a.modeTables) [] id db :=
  Protocol.Tracks.start hok (fun _ _ => rfl)

theorem commits_unwritten {α : Type} {a : α} {post : ModeTables → ModeTables → α → Prop}
    (h : Protocol.Tracks modeView (fun a b => b.modeTables = a.modeTables) held writes db)
    (hpost : ∀ t, post t t a) :
    modeProtocol.Commits (fun x y a => post x.modeTables y.modeTables a) a held writes db := by
  refine h.commits (fun x y hinv hE => ⟨?_, ?_⟩)
  · have hguarantee : modeTablesProtocol.Guarantee held x.modeTables y.modeTables := by
      rw [hE]
      exact Protocol.Guarantee.refl hinv
    exact hguarantee.comap
  · rw [hE]
    exact hpost x.modeTables

/-- **The writer of the mode**, under the users lock. -/
theorem wp_writeTradingMode {find : AccountsDb → Option UserId} {G : AccountsDb → Prop}
    {Q : Option UserId → List (AccountsLock × LockMode) → (AccountsDb → AccountsDb) → AccountsDb → Prop}
    (outcome : DepositModeSwitch)
    (h : Protocol.Tracks modeView (fun a b => b.modeTables = a.modeTables ∧ G a) held writes db)
    (hnone : ∀ db', modeProtocol.Env held db db' →
      Protocol.Tracks modeView (fun a b => b.modeTables = a.modeTables ∧ G a) held writes db' →
      Q none held writes db')
    (hsome : ∀ uid db₁ db' writes', modeProtocol.Env held db db₁ → find (writes db₁) = some uid →
      modeProtocol.Env held db₁ db' →
      Protocol.Tracks modeView (fun a b => ModeChange uid mode outcome [] [] a.modeTables b.modeTables ∧
        G a)
        ((.user uid, .exclusive) :: held) writes' db' →
      Q (some uid) ((.user uid, .exclusive) :: held) writes' db') :
    modeProtocol.wp (writeTradingMode find mode) Q held writes db := by
  refine h.wp_changeKey (fun uid a b => ModeChange uid mode outcome [] [] a.modeTables b.modeTables ∧ G a)
    (fun uid a b hab => ?_) (fun uid => (local_setUser uid _).comap
      (AccountsDb.modeTables_updateUser (g := fun u => { u with tradingMode := mode }) (fun _ => by rfl)
        (fun _ => by rfl))) (fun uid a b _ hE hp => ⟨⟨?_, ?_, fun _ hmem => absurd hmem List.not_mem_nil,
        fun _ hmem => absurd hmem List.not_mem_nil⟩, hE.2⟩) hnone
    (fun uid db₁ db' henv₁ hfind henv₂ h' => hsome uid db₁ db' _ henv₁ hfind henv₂ h')
  · have hany := fun x => AccountsDb.any_modeUser (fun u => u.tradingMode ≠ mode) x uid
    exact (hany b).symm.trans ((congrArg (Option.any _) hab).trans (hany a))
  · rw [changed_nil, ← hE.1]
    exact AccountsDb.modeTables_updateUser (fun _ => by rfl) (fun _ => by rfl) b
  · obtain ⟨user, huser, hne⟩ := (Option.any_eq_true _ _).mp hp
    refine ⟨user.modeUser, ?_, of_decide_eq_true hne⟩
    rw [← hE.1]
    exact modeTables_user huser

theorem mode_setTradingMode (hok : modeProtocol.inv db) (telegramUserId : ℕ) (mode : TradeMode) :
    modeProtocol.wp (ModeCall.setTradingMode telegramUserId mode).program
      (CommitsMode (.setTradingMode telegramUserId mode) db) [] (fun x => x) db := by
  have h₀ : Protocol.Tracks modeView (fun a b => b.modeTables = a.modeTables ∧ db.modeTables.Grows
    a.modeTables)
      [] id db := (tracks_start hok).learn (fun a => db.modeTables.Grows a.modeTables)
        (fun a henv => show db.modeTables.Grows a.modeTables from henv.rely)
  unfold ModeCall.program setTradingMode
  rw [Protocol.wp_monad_bind, Protocol.wp_monad_bind]
  refine wp_writeTradingMode .superseded h₀ (fun db₁ henv₁ h₁ => ?_)
    (fun uid db₁ db₂ writes₂ henv₁ hfind henv₂ h₂ => ?_)
  · dsimp only
    rw [Protocol.wp_monad_bind]
    intro db₂ henv₂
    rw [Protocol.wp_ret, Protocol.wp_pure, Protocol.wp_pure]
    refine commits_unwritten ((h₁.env henv₂).mono fun _ _ _ hE => hE.1) (fun t => ?_)
    have hunchanged : ¬ ((db₂.userOfTelegram telegramUserId).map (fun user =>
        (⟨user.tradingMode, false, 0⟩ : SetTradingModeResult))).any (·.changed) = true := by
      cases db₂.userOfTelegram telegramUserId <;> exact Bool.false_ne_true
    exact (if_neg hunchanged).mpr rfl
  · have htelegram₁ : db₁.modeTables.HasTelegram telegramUserId uid := userOfTelegram_tables hfind
    have htelegram : db₂.modeTables.HasTelegram telegramUserId uid := htelegram₁.grows henv₂.rely
    have h₃ := (h₂.learn (fun a => a.modeTables.HasTelegram telegramUserId uid)
      (fun a henv => htelegram.grows henv.rely)).mono (fun a b _ hE =>
        (⟨hE.1.1, hE.1.2, hE.2⟩ : ModeChange uid mode .superseded [] [] a.modeTables b.modeTables ∧
          db.modeTables.Grows a.modeTables ∧ a.modeTables.HasTelegram telegramUserId uid))
    dsimp only
    rw [Protocol.wp_monad_bind]
    refine wp_stopUserSessions (G := fun t => db.modeTables.Grows t ∧ t.HasTelegram telegramUserId uid) h₃
      List.mem_cons_self htelegram (fun stopped held₄ writes₄ db₄ hsub₄ hlocks₄ henv₄ h₄ => ?_)
    rw [Protocol.wp_monad_bind]
    refine wp_markUserDepositModeSwitches (K := fun k => db.modeTables.Attributed k uid)
      (G := fun t => (db.modeTables.Grows t ∧ t.HasTelegram telegramUserId uid) ∧
        ∀ i s, t.session i = some s → s.status = .active → t.ownerOf s.brokerAccountId = some uid →
          i ∈ stopped)
      h₄ (fun k hk => hk.grows h₄.now.2.1.1) (fun marked held₅ writes₅ db₅ hsub₅ hlocks₅ h₅ => ?_)
    rw [Protocol.wp_pure, Protocol.wp_pure]
    refine h₅.commits (fun a b hinv hE => ⟨?_, ?_⟩)
    · obtain ⟨hchange, ⟨-, hall⟩, -⟩ := hE
      have hguarantee : modeTablesProtocol.Guarantee held₅ a.modeTables b.modeTables := by
        rw [hchange.eq]
        refine guarantee_changed hinv (hsub₅ _ (hsub₄ _ List.mem_cons_self))
          (fun i hi => hsub₅ _ (hlocks₄ i hi)) (fun i hi s hs => ?_) hlocks₅ (fun k hk d hd => ?_) hall
        · obtain ⟨s', hs', hactive⟩ := hchange.active i hi
          obtain rfl := Option.some.inj (hs'.symm.trans hs)
          exact hactive
        · obtain ⟨d', hd', hwaits, -⟩ := hchange.waiting k hk
          obtain rfl := Option.some.inj (hd'.symm.trans hd)
          exact hwaits
      exact hguarantee.comap
    · obtain ⟨hchange, ⟨⟨-, htelegram⟩, -⟩, hclosed⟩ := hE
      exact ⟨uid, stopped, marked, hchange, htelegram, rfl, hclosed⟩

/-- The outcome of a deposit, written where it had none. -/
theorem wp_markDepositModeSwitch {k : DepositKey} {E : ModeTables → ModeTables → Prop}
    {Q : Bool → List (AccountsLock × LockMode) → (AccountsDb → AccountsDb) → AccountsDb → Prop}
    (outcome : DepositModeSwitch)
    (h : Protocol.Tracks modeView (fun a b => E a.modeTables b.modeTables) held writes db)
    (hfalse : ∀ db', Protocol.Tracks modeView (fun a b => E a.modeTables b.modeTables) held writes db' →
      Q false held writes db')
    (htrue : ∀ writes' db', Protocol.Tracks modeView (fun a b => ∃ t, E a.modeTables t ∧
      (t.deposit k).any (fun d => d.modeSwitch.isNone) ∧
      b.modeTables = t.setDeposit k (ModeDeposit.closed outcome)) ((.deposit k, .exclusive) :: held)
        writes' db' →
      Q true ((.deposit k, .exclusive) :: held) writes' db') :
    modeProtocol.wp (markDepositModeSwitch k outcome) Q held writes db := by
  have hview : ∀ x : AccountsDb, (x.updateDeposit k (DepositEventRow.closed outcome)).modeTables =
      x.modeTables.setDeposit k (ModeDeposit.closed outcome) :=
    AccountsDb.modeTables_updateDeposit (fun _ => by rfl) (fun _ => by rfl)
  have hany := fun x => AccountsDb.any_modeDeposit (fun d => d.modeSwitch.isNone) x k
  exact h.wp_change _ (fun a b hab => (hany b).symm.trans ((congrArg (Option.any _) hab).trans (hany a)))
    ((local_setDeposit k _).comap hview)
    (fun a b _ hE hp => ⟨b.modeTables, hE, (hany b).trans hp, hview b⟩) (fun db' _ h' _ => hfalse db' h')
    (fun db' _ _ h' => htrue _ db' h')

/-- A deposit closed, and nothing else. -/
theorem commits_closed {k : DepositKey} {demoOnly : Bool} (outcome : DepositModeSwitch)
    (hne : outcome ≠ .switched)
    (h : Protocol.Tracks modeView (fun a b => ∃ t, t = a.modeTables ∧
      (t.deposit k).any (fun d => d.modeSwitch.isNone) ∧
      b.modeTables = t.setDeposit k (ModeDeposit.closed outcome)) held writes db)
    (hlock : (.deposit k, .exclusive) ∈ held) (began : AccountsDb) :
    CommitsMode (.switchTradingModeOnDeposit k demoOnly) began (.attempt (.closed outcome)) held writes
      db := by
  refine h.commits (fun a b hinv hE => ?_)
  obtain ⟨-, rfl, hwaits, hafter⟩ := hE
  refine ⟨Protocol.Guarantee.comap ?_, ?_⟩
  · rw [hafter]
    refine guarantee_setDeposit hinv (fun d hd => ⟨fun _ ho => ho, fun o ho => ?_⟩) hlock
    rw [hd, Option.any_some, ho] at hwaits
    cases hwaits
  · cases outcome with
    | switched => exact absurd rfl hne
    | _ => exact ⟨hwaits, hafter⟩

/-- No session of the user is unstopped, from the read on to the commit. -/
theorem idle_of_read (hview : (writes db).modeTables = db.modeTables)
    (hlock : (.user uid, .exclusive) ∈ held)
    (hnone : (writes db).hasUnstoppedSession uid = false) {a : AccountsDb} (henv : modeProtocol.Env held
      db a) :
    ∀ id s, a.modeTables.session id = some s → a.modeTables.ownerOf s.brokerAccountId = some uid →
      s.status = .stopped := by
  intro id s hs howner
  by_contra hne
  have hstarted : NoneStarted uid db.modeTables a.modeTables := (henv.same _ _ hlock).2
  obtain ⟨hs₀, howner₀⟩ := hstarted id s hs hne howner
  rw [← hview] at hs₀ howner₀
  obtain ⟨row, hrow, hid⟩ := Option.map_eq_some_iff.mp howner₀
  obtain ⟨account, haccount, rfl⟩ := Option.map_eq_some_iff.mp hrow
  have hid : account.userId = uid := hid
  have hmem : s ∈ (writes db).tradingSessions.rows :=
    Table.mem_of_find? (t := (writes db).tradingSessions) hs₀
  have hany : (writes db).hasUnstoppedSession uid = true := by
    refine List.any_eq_true.mpr ⟨s, hmem, ?_⟩
    simp [hne, AccountsDb.sessionUser, haccount, hid]
  rw [hnone] at hany
  cases hany

theorem wp_decideModeSwitch {k : DepositKey} {accountId : AccountId} {user : UserRow}
    {Q : DepositModeSwitchAttempt → List (AccountsLock × LockMode) → (AccountsDb → AccountsDb) →
      AccountsDb → Prop}
    (h : Protocol.Tracks modeView (fun a b => b.modeTables = a.modeTables) held writes db)
    (hlock : (.user uid, .exclusive) ∈ held) (huser : db.modeTables.user uid = some user.modeUser)
    (hattributed : db.modeTables.Attributed k uid)
    (hquiet : ∀ attempt db', attempt ≠ .closed .switched →
      Protocol.Tracks modeView (fun a b => b.modeTables = a.modeTables) held writes db' →
      Q attempt held writes db')
    (hswitched : ∀ held' writes' db', (.user uid, .exclusive) ∈ held' → Protocol.Tracks modeView
      (fun a b => ModeChange uid .real .switched [] [] a.modeTables b.modeTables ∧
        a.modeTables.Switchable k uid)
        held' writes' db' → Q (.closed .switched) held' writes' db') :
    modeProtocol.wp (decideModeSwitch uid accountId user) Q held writes db := by
  unfold decideModeSwitch
  split
  · exact hquiet _ db (fun heq => by cases heq) h
  · rename_i hstatus
    split
    · exact hquiet _ db (fun heq => by cases heq) h
    · rename_i hmode
      rw [Protocol.wp_monad_bind]
      intro db₁ henv₁
      rw [Protocol.wp_ret]
      split
      · exact hquiet _ db₁ (fun heq => by cases heq) (h.env henv₁)
      · rw [Protocol.wp_monad_bind]
        intro db₂ henv₂
        rw [Protocol.wp_ret]
        have henv := henv₁.trans henv₂
        split
        · exact hquiet _ db₂ (fun heq => by cases heq) (h.env henv)
        · rename_i hnone
          have hnone : (writes db₂).hasUnstoppedSession uid = false := Bool.eq_false_of_not_eq_true hnone
          have hdemo : user.tradingMode = .demo := by
            cases hdemo : user.tradingMode with
            | demo => rfl
            | real => exact absurd hdemo hmode
          have h₂ := (h.env henv).learn (fun a => a.modeTables.Switchable k uid) (fun a henv₃ => by
            have hsame : a.modeTables.user uid = db.modeTables.user uid :=
              ((henv.trans henv₃).same _ _ hlock).1
            exact ⟨⟨user.modeUser, hsame.trans huser, hstatus, hdemo⟩,
              hattributed.grows (henv.trans henv₃).rely, idle_of_read (h.env henv).now hlock hnone henv₃⟩)
          rw [Protocol.wp_monad_bind]
          refine wp_writeTradingMode .switched h₂ (fun _ _ _ => trivial)
            (fun uid' db₃ db₄ writes₄ henv₃ hfind henv₄ h₄ => ?_)
          obtain rfl : uid = uid' := Option.some.inj hfind
          exact hswitched _ writes₄ db₄ List.mem_cons_self h₄

theorem mode_switchTradingModeOnDeposit (hok : modeProtocol.inv db) (k : DepositKey) (demoOnly : Bool) :
    modeProtocol.wp (ModeCall.switchTradingModeOnDeposit k demoOnly).program
      (CommitsMode (.switchTradingModeOnDeposit k demoOnly) db) [] (fun x => x) db := by
  have h₀ := tracks_start hok
  have hgone : ∀ {held writes} {db' : AccountsDb} {attempt : DepositModeSwitchAttempt},
      (∀ outcome, attempt ≠ .closed outcome) →
      Protocol.Tracks modeView (fun a b => b.modeTables = a.modeTables) held writes db' →
      CommitsMode (.switchTradingModeOnDeposit k demoOnly) db (.attempt attempt) held writes db' := by
    intro held writes db' attempt hne h
    refine commits_unwritten h (fun t => ?_)
    cases attempt with
    | closed outcome => exact absurd rfl (hne outcome)
    | sessionActive => exact rfl
    | gone => exact rfl
  unfold ModeCall.program switchTradingModeOnDeposit
  rw [Protocol.wp_monad_bind]
  split
  · rw [Protocol.wp_monad_bind]
    refine wp_markDepositModeSwitch (E := fun a b => b = a) .demoOnly h₀ (fun db₁ h₁ => ?_)
      (fun writes₁ db₁ h₁ => ?_)
    · rw [Protocol.wp_pure, Protocol.wp_pure, if_neg Bool.false_ne_true]
      exact hgone (fun _ heq => by cases heq) h₁
    · rw [Protocol.wp_pure, Protocol.wp_pure, if_pos rfl]
      exact commits_closed .demoOnly (fun heq => by cases heq) h₁ List.mem_cons_self db
  · rename_i hdemo
    rw [Protocol.wp_monad_bind]
    intro db₁ henv₁
    rw [Protocol.wp_ret]
    split
    · exact hgone (fun _ heq => by cases heq) (h₀.env henv₁)
    · rename_i uid accountId hread
      have hattributed : db₁.modeTables.Attributed k uid := by
        obtain ⟨deposit, hdeposit, howner⟩ := Option.bind_eq_some_iff.mp hread
        split at howner
        · refine ⟨_, modeTables_deposit hdeposit, ?_⟩
          show deposit.owner.any _ = true
          rw [howner]
          exact decide_eq_true rfl
        · cases howner
      rw [Protocol.wp_monad_bind]
      refine Protocol.wp_selectFor (fun db₂ henv₂ _ => ?_) (fun db₂ user henv₂ huser => ?_)
      · exact hgone (fun _ heq => by cases heq) (h₀.env (henv₁.trans henv₂))
      · have h₂ := (h₀.env (henv₁.trans henv₂)).lock (.user uid) .exclusive
        dsimp only
        rw [Protocol.wp_monad_bind]
        refine wp_decideModeSwitch h₂ List.mem_cons_self (modeTables_user huser)
          (hattributed.grows henv₂.rely) (fun attempt db₃ hne h₃ => ?_) (fun held₃ writes₃ db₃ hlock h₃ => ?_)
        · cases attempt with
          | closed outcome =>
            dsimp only
            rw [Protocol.wp_monad_bind]
            refine wp_markDepositModeSwitch (E := fun a b => b = a) outcome h₃ (fun _ _ => trivial)
              (fun writes₄ db₄ h₄ => ?_)
            rw [if_pos rfl, Protocol.wp_pure, Protocol.wp_pure]
            exact commits_closed outcome (fun heq => hne (heq ▸ rfl)) h₄ List.mem_cons_self db
          | sessionActive => exact hgone (fun _ heq => by cases heq) h₃
          | gone => exact hgone (fun _ heq => by cases heq) h₃
        · dsimp only
          rw [Protocol.wp_monad_bind]
          refine wp_markDepositModeSwitch (E := fun a b => ModeChange uid .real .switched [] [] a b ∧
            a.Switchable k uid) .switched h₃ (fun _ _ => trivial) (fun writes₄ db₄ h₄ => ?_)
          rw [if_pos rfl, Protocol.wp_pure, Protocol.wp_pure]
          refine h₄.commits (fun a b hinv hE => ?_)
          obtain ⟨t, ⟨hchange, hswitchable⟩, hwaits, hafter⟩ := hE
          rw [hchange.eq, closeDeposit_changed, List.nil_append] at hafter
          have hwaiting : ∀ j ∈ [k], ∃ d, a.modeTables.deposit j = some d ∧ d.modeSwitch = none ∧
              d.owner.any (fun o => o.1 = uid) := by
            intro j hj
            obtain rfl := List.mem_singleton.mp hj
            obtain ⟨d, hd, howner⟩ := hswitchable.attributed
            rw [hchange.eq, deposit_changed List.not_mem_nil, hd] at hwaits
            exact ⟨d, hd, Option.isNone_iff_eq_none.mp hwaits, howner⟩
          refine ⟨Protocol.Guarantee.comap ?_, Bool.eq_false_of_not_eq_true hdemo, uid,
            ⟨hafter, hchange.user, hchange.active, hwaiting⟩, hswitchable⟩
          rw [hafter]
          refine guarantee_changed hinv (List.mem_cons_of_mem _ hlock) (fun _ hmem =>
            absurd hmem List.not_mem_nil)
            (fun _ hmem => absurd hmem List.not_mem_nil) (fun j hj => ?_) (fun j hj d hd => ?_)
            (fun i s hs hactive howner => ?_)
          · obtain rfl := List.mem_singleton.mp hj
            exact List.mem_cons_self
          · obtain ⟨d', hd', hnone, -⟩ := hwaiting j hj
            obtain rfl := Option.some.inj (hd'.symm.trans hd)
            exact hnone
          · have hstopped := hswitchable.idle i s hs howner
            rw [hactive] at hstopped
            cases hstopped

theorem mode_createTradingSession (db : AccountsDb) (input : CreateTradingSessionInput) (demoOnly : Bool) :
    modeProtocol.wp (ModeCall.createTradingSession input demoOnly).program
      (CommitsMode (.createTradingSession input demoOnly) db) [] (fun x => x) db := by
  unfold ModeCall.program AccountsTx.createTradingSession
  rw [Protocol.wp_monad_bind]
  split
  · trivial
  · rename_i hallowed
    rw [Protocol.wp_monad_bind]
    intro db₁ henv₁
    rw [Protocol.wp_ret]
    split
    · trivial
    · rename_i owner howner
      rw [Protocol.wp_monad_bind]
      refine Protocol.wp_selectFor (fun _ _ _ => trivial) (fun db₂ user henv₂ huser => ?_)
      dsimp only
      split
      · trivial
      · rename_i hmode
        rw [Protocol.wp_monad_bind]
        refine Protocol.wp_selectFor (fun _ _ _ => trivial) (fun db₃ account henv₃ haccount => ?_)
        dsimp only
        split
        · trivial
        · rename_i hrevoked
          split
          · trivial
          · rename_i hpending
            split
            · trivial
            · rename_i hhalted
              rw [Protocol.wp_monad_bind]
              intro db₄ henv₄
              rw [Protocol.wp_ret]
              split
              · trivial
              · rw [Protocol.wp_monad_bind]
                refine Protocol.wp_insertNew (fun _ _ _ => trivial)
                  (fun db₅ db₆ henv₅ hfree henv₆ hfresh => ?_)
                rw [if_pos rfl, Protocol.wp_pure, Protocol.wp_pure]
                intro a henv
                -- the locks of the account and of its owner hold what was read of them to the commit
                have henvAccount := ((henv₄.trans henv₅).trans (henv₆.tail.trans henv.tail.tail))
                have henvUser := henv₃.trans henvAccount.tail
                have huserRow : a.modeTables.user owner.id = some user.modeUser := by
                  have hsame : a.modeTables.user owner.id = db₂.modeTables.user owner.id :=
                    (henvUser.same _ _ List.mem_cons_self).1
                  exact hsame.trans (modeTables_user (Option.filter_eq_some_iff.mp huser).1)
                have haccountRow : a.modeTables.account input.brokerAccountId =
                  some account.modeAccount := by
                  have hsame : a.modeTables.account input.brokerAccountId =
                      db₃.modeTables.account input.brokerAccountId :=
                    (henvAccount.same _ _ List.mem_cons_self).1
                  exact hsame.trans (modeTables_account haccount)
                obtain ⟨hfound, htelegram⟩ := Option.filter_eq_some_iff.mp howner
                obtain ⟨account₁, haccount₁, howner₁⟩ := Option.bind_eq_some_iff.mp hfound
                have hownerId : owner.id = account₁.userId := Table.key_of_find? howner₁
                have hownerOf : a.modeTables.ownerOf input.brokerAccountId = some owner.id := by
                  refine (henv₂.trans henvUser.tail).rely.accounts _ _ ?_
                  rw [hownerId]
                  exact congrArg (Option.map ModeAccount.userId) (modeTables_account haccount₁)
                have huserId : account.modeAccount.userId = owner.id := by
                  have howner : (a.modeTables.account input.brokerAccountId).map ModeAccount.userId =
                    _ := hownerOf
                  rw [haccountRow] at howner
                  exact Option.some.inj howner
                have htelegramRow : user.telegramUserId = input.telegramUserId := by
                  obtain ⟨u', hu', heq⟩ := (henv₂.trans henvUser.tail).rely.users account₁.userId _
                    (modeTables_user howner₁)
                  rw [← hownerId, huserRow] at hu'
                  obtain rfl := Option.some.inj hu'
                  exact heq.trans (of_decide_eq_true htelegram)
                have hactive : account.status = .active := by
                  cases hstatus : account.status with
                  | active => rfl
                  | pending => exact absurd hstatus hpending
                  | revoked => exact absurd hstatus hrevoked
                have halone : ∀ id s, a.modeTables.session id = some s → s.status = .active →
                    s.brokerAccountId ≠ input.brokerAccountId := by
                  rintro id s hs hrunning heq
                  have hnone : NoneStarted owner.id db₅.modeTables a.modeTables :=
                    ((henv₆.tail.trans henv.tail.tail).same _ _
                      (List.mem_cons_of_mem _ List.mem_cons_self)).2
                  obtain ⟨hs₅, -⟩ := hnone id s hs (fun hstopped => by rw [hrunning] at hstopped; cases hstopped)
                    (by rw [heq]; exact hownerOf)
                  have hrow := List.all_eq_true.mp hfree s (Table.mem_of_find? (t := db₅.tradingSessions) hs₅)
                  simp [heq, hrunning] at hrow
                have hnew : a.modeTables.session input.newSessionId = none := by
                  have hsame : a.modeTables.session input.newSessionId = db₆.modeTables.session
                    input.newSessionId :=
                    (henv.same _ _ List.mem_cons_self).1
                  exact hsame.trans (Option.isNone_iff_eq_none.mp hfresh)
                have hmodeRow : input.mode = user.tradingMode := (not_not.mp hmode).symm
                have hafter : (AccountsDb.insertSession input.row a).modeTables =
                  a.modeTables.addSession input.row :=
                  AccountsDb.modeTables_insertSession _ a
                refine ⟨Protocol.Guarantee.comap ?_, rfl, ⟨hnew, ?_, halone, fun hdemo => ?_⟩, hafter⟩
                · show modeTablesProtocol.Guarantee _ _ (AccountsDb.insertSession input.row a).modeTables
                  rw [hafter]
                  exact guarantee_addSession henv.inv hnew hownerOf huserRow hmodeRow halone
                    List.mem_cons_self
                    (List.mem_cons_of_mem _ (List.mem_cons_of_mem _ (List.mem_cons_of_mem _ List.mem_cons_self)))
                · refine ⟨account.modeAccount, user.modeUser, haccountRow, hactive,
                    Bool.eq_false_of_not_eq_true hhalted, ?_, htelegramRow,
                    of_decide_eq_true (Option.filter_eq_some_iff.mp huser).2, hmodeRow.symm⟩
                  rw [huserId]
                  exact huserRow
                · cases hmode : input.mode with
                  | demo => rfl
                  | real => simp [CreateTradingSessionOptions.refuses, hdemo, hmode] at hallowed

theorem mode_stopTradingSession (hok : modeProtocol.inv db) (id : SessionId) :
    modeProtocol.wp (ModeCall.stopTradingSession id).program (CommitsMode (.stopTradingSession id) db) []
      (fun x => x) db := by
  unfold ModeCall.program AccountsTx.stopTradingSession
  rw [Protocol.wp_monad_bind]
  refine (tracks_start hok).wp_change (fun a b => (a.modeTables.session id).any (fun s =>
    s.status = .active) ∧
      b.modeTables = a.modeTables.stopSession id) (fun a b hab => congrArg (Option.any _) hab)
    ((local_stopSession id).comap (AccountsDb.modeTables_stopSession id)) (fun a b _ hE hp => ?_)
    (fun db₁ _ h₁ _ => commits_unwritten h₁ (fun t => rfl)) (fun db₁ _ _ h₁ => ?_)
  · refine ⟨?_, ?_⟩
    · rw [← hE]
      exact hp
    · rw [← hE]
      exact AccountsDb.modeTables_stopSession id b
  · rw [Protocol.wp_pure]
    refine h₁.commits (fun a b hinv hE => ⟨Protocol.Guarantee.comap ?_, hE⟩)
    rw [hE.2]
    refine guarantee_stopSession hinv (fun s hs => ?_) List.mem_cons_self
    have hactive := hE.1
    rw [hs] at hactive
    exact of_decide_eq_true hactive

/-- **The transactions are sound for the protocol.** -/
theorem mode_sound : modeProtocol.Sound ModeCall.program (fun call began a b reply =>
    ModePost call began.modeTables a.modeTables b.modeTables reply) := by
  have hleaving : ∀ {α : Type} {p : AccountsTx α} {call : ModeCall} {db : AccountsDb},
      (∀ t t' : ModeTables, t.Leaves t' → ModePost call db.modeTables t t' .done) →
      modeProtocol.wp p CommitsLeaves [] (fun x => x) db →
      modeProtocol.wp p.leaving (CommitsMode call db) [] (fun x => x) db := by
    intro α p call db hpost h
    unfold AccountsTx.leaving
    rw [Protocol.wp_monad_bind]
    refine Protocol.wp_mono h (fun _ held writes db' hcommits db'' henv => ?_)
    obtain ⟨hguarantee, hleaves⟩ := hcommits db'' henv
    exact ⟨hguarantee, hpost _ _ hleaves⟩
  rintro call db hok
  cases call with
  | setTradingMode telegramUserId mode => exact mode_setTradingMode hok telegramUserId mode
  | switchTradingModeOnDeposit k demoOnly => exact mode_switchTradingModeOnDeposit hok k demoOnly
  | createTradingSession input demoOnly => exact mode_createTradingSession db input demoOnly
  | stopTradingSession id => exact mode_stopTradingSession hok id
  | linkBrokerAccount now input => exact hleaving (fun _ _ h => h) (quiet_linkBrokerAccount hok input)
  | confirmBrokerAccount now telegramUserId accountId =>
    exact hleaving (fun _ _ h => h) (quiet_confirmBrokerAccount hok telegramUserId accountId)
  | recordPostback input => exact hleaving (fun _ _ h => h) (quiet_recordPostback hok input)
  | recordUserStart id telegramUserId referral =>
    exact hleaving (fun _ _ h => h) (quiet_recordUserStart hok id telegramUserId referral)
  | setUserStatus id status => exact hleaving (fun _ _ h => h) (quiet_setUserStatus hok id status)
  | revokeAccount id => exact hleaving (fun _ _ h => h) (quiet_revokeAccount hok id)
  | haltAccountForManualReview id reviewed =>
    exact hleaving (fun _ _ h => h) (quiet_haltAccountForManualReview hok id reviewed)

end Programs

/-! ## Every run -/

section Runs

open ModeTables

variable {db : AccountsDb}

/-- The world after these actions. -/
def modeRun (db : AccountsDb) (acts : List (StoreAct ModeCall)) :
    StoreWorld AccountsDb AccountsLock AccountsError ModeReply ModeCall :=
  run (StoreWorld.act ModeCall.program) ⟨db, []⟩ acts

theorem modeRun_append (db : AccountsDb) (acts acts' : List (StoreAct ModeCall)) :
    modeRun db (acts ++ acts') = run (StoreWorld.act ModeCall.program) (modeRun db acts) acts' :=
  run_append _ _ acts acts'

/-- The world of these writers, and what each commit does. -/
abbrev ModeWorldOk (w : StoreWorld AccountsDb AccountsLock AccountsError ModeReply ModeCall) : Prop :=
  Protocol.WorldOk modeProtocol (fun call began a b reply =>
    ModePost call began.modeTables a.modeTables b.modeTables reply) w

theorem modeRun_ok (h : db.modeTables.Ok) (acts : List (StoreAct ModeCall)) :
    ModeWorldOk (modeRun db acts) :=
  mode_sound.run (Protocol.WorldOk.initial h) acts

/-! ### A store and its runs -/

/-- A store without sessions is as it should be once its accounts have their users. -/
theorem modeTables_ok_of_no_sessions (hsessions : db.tradingSessions = .empty)
    (hown : ∀ account ∈ db.brokerAccounts.rows, ∃ user, db.users.find? account.userId = some user) :
    db.modeTables.Ok := by
  have hnone : ∀ id, db.modeTables.session id = none := by
    intro id
    show db.tradingSessions.find? id = none
    rw [hsessions]
    rfl
  have hcontra : ∀ {id s} {p : Prop}, db.modeTables.session id = some s → p := by
    intro id s p hs
    rw [hnone] at hs
    cases hs
  refine ⟨fun id uid howner => ?_, fun id s hs => hcontra hs, fun id s uid u hs => hcontra hs,
    fun id id' s s' hs => hcontra hs⟩
  obtain ⟨a, ha, rfl⟩ := Option.map_eq_some_iff.mp howner
  obtain ⟨account, haccount, rfl⟩ := Option.map_eq_some_iff.mp ha
  obtain ⟨user, huser⟩ := hown account (Table.mem_of_find? haccount)
  exact ⟨user.modeUser, modeTables_user huser⟩

/-- A user in demo with an active account and a deposit that waits. -/
def waitingStore : AccountsDb where
  users := ⟨[newUserRow 9 910], List.nodup_singleton _⟩
  brokerAccounts := ⟨[⟨4, 9, "d".toList, true, .active, false⟩], List.nodup_singleton _⟩
  referrals := []
  bonusRules := []
  bonusLedger := []
  depositEvents := [⟨.binodex, "p".toList, "d".toList, "5".toList, none, some (9, 4), none, some 4⟩]
  postbackDeliveries := []
  tradingSessions := .empty
  tradingSwitch := some true

theorem waitingStore_ok : waitingStore.modeTables.Ok :=
  modeTables_ok_of_no_sessions rfl (fun account hmem => by
    obtain rfl := List.mem_singleton.mp hmem
    exact ⟨newUserRow 9 910, rfl⟩)

/-- The pass over the waiting deposit, up to its commit. -/
def passes : List (StoreAct ModeCall) :=
  .start (.switchTradingModeOnDeposit (.binodex, "p".toList) false) :: List.replicate 11 (StoreAct.step 0)

/-- Two passes over it: both have read it as waiting when the first commits. -/
def racingPasses : List (StoreAct ModeCall) :=
  .start (.switchTradingModeOnDeposit (.binodex, "p".toList) false) ::
    .start (.switchTradingModeOnDeposit (.binodex, "p".toList) false) ::
    List.replicate 3 (StoreAct.step 0) ++ List.replicate 3 (StoreAct.step 1) ++
    List.replicate 9 (StoreAct.step 0) ++ List.replicate 9 (StoreAct.step 1)

/-- The user's own switch, up to its commit. -/
def switches : List (StoreAct ModeCall) := .start (.setTradingMode 910 .real) :: List.replicate 7
    (StoreAct.step 0)

/-- A start of a session, up to its commit. -/
def starts : List (StoreAct ModeCall) :=
  .start (.createTradingSession ⟨910, 4, .demo, 30⟩ true) :: List.replicate 12 (StoreAct.step 0)

/-- A session starts, then the pass and the user's switch side by side. -/
def startsAndSwitches : List (StoreAct ModeCall) :=
  starts ++ StoreAct.step 0 :: .start (.switchTradingModeOnDeposit (.binodex, "p".toList) false) ::
    .start (.setTradingMode 910 .real) :: List.replicate 4 (StoreAct.step 1) ++ List.replicate 3 (StoreAct.step 2) ++
    List.replicate 8 (StoreAct.step 1) ++ List.replicate 12 (StoreAct.step 2)

/-- **An active session runs in its owner's mode**, in every interleaving; an account runs one at most. -/
theorem sessions_run_in_their_owners_mode (h : db.modeTables.Ok) (acts : List (StoreAct ModeCall)) :
    let w := modeRun db acts
    (∀ session ∈ w.db.tradingSessions.rows, session.status = .active → ∃ account user,
      w.db.brokerAccounts.find? session.brokerAccountId = some account ∧
      w.db.users.find? account.userId = some user ∧ session.mode = user.tradingMode) ∧
    (∀ session ∈ w.db.tradingSessions.rows, ∀ session' ∈ w.db.tradingSessions.rows,
      session.status = .active →
      session'.status = .active → session.brokerAccountId = session'.brokerAccountId → session =
        session') := by
  intro w
  have hok : w.db.modeTables.Ok := (modeRun_ok h acts).inv
  have hfind : ∀ {session}, session ∈ w.db.tradingSessions.rows →
      w.db.modeTables.session session.id = some session := fun hmem => Table.find?_of_mem hmem
  refine ⟨fun session hmem hactive => ?_, fun session hmem session' hmem' hactive hactive' heq => ?_⟩
  · obtain ⟨uid, howner⟩ := hok.sessionOwner session.id session (hfind hmem)
    obtain ⟨u, hu⟩ := hok.ownerUser _ uid howner
    obtain ⟨a, ha, rfl⟩ := Option.map_eq_some_iff.mp howner
    obtain ⟨account, haccount, rfl⟩ := Option.map_eq_some_iff.mp ha
    obtain ⟨user, huser, rfl⟩ := Option.map_eq_some_iff.mp hu
    exact ⟨account, user, haccount, huser, hok.mode session.id session _ _ (hfind hmem) hactive howner hu⟩
  · have hid := hok.one _ _ session session' (hfind hmem) (hfind hmem') hactive hactive' heq
    have hfound := hfind hmem
    rw [hid, hfind hmem'] at hfound
    exact (Option.some.inj hfound).symm

theorem sessions_run_in_their_owners_mode_waiting :
    ∃ session ∈ (modeRun waitingStore (starts ++ [StoreAct.step 0])).db.tradingSessions.rows,
      session.status = .active ∧ ∃ account user,
        (modeRun waitingStore (starts ++ [StoreAct.step 0])).db.brokerAccounts.find?
          session.brokerAccountId = some account ∧
        (modeRun waitingStore (starts ++ [StoreAct.step 0])).db.users.find? account.userId = some user ∧
        session.mode = user.tradingMode := by
  have hmem : (⟨30, 4, .demo, .active⟩ : TradingSessionRow) ∈
      (modeRun waitingStore (starts ++ [StoreAct.step 0])).db.tradingSessions.rows := List.mem_cons_self
  exact ⟨_, hmem, rfl,
    (sessions_run_in_their_owners_mode waitingStore_ok (starts ++ [StoreAct.step 0])).1 _ hmem rfl⟩

/-- What the switch made of a deposit. -/
def AccountsDb.modeSwitchOf (db : AccountsDb) (k : DepositKey) : Option DepositModeSwitch :=
  (db.deposit k).bind DepositEventRow.modeSwitch

theorem outcome_modeTables (db : AccountsDb) (k : DepositKey) : db.modeTables.outcome k =
    db.modeSwitchOf k := by
  show ((db.deposit k).map _).bind _ = (db.deposit k).bind _
  cases db.deposit k <;> rfl

/-- The answer closes the deposit. -/
def closes (k : DepositKey) (answer : ModeCall × ModeReply) : Bool :=
  match answer with
  | (.switchTradingModeOnDeposit k' _, .attempt (.closed _)) => k' = k
  | _ => false

theorem closes_eq_true {k : DepositKey} {answer : ModeCall × ModeReply} (h : closes k answer = true) :
    ∃ demoOnly outcome, answer = (.switchTradingModeOnDeposit k demoOnly, .attempt (.closed outcome)) := by
  unfold closes at h
  split at h
  · rename_i k' demoOnly outcome
    obtain rfl : k' = k := of_decide_eq_true h
    exact ⟨demoOnly, outcome, rfl⟩
  · cases h

/-- A deposit that is closed had no outcome. -/
theorem outcome_of_closes {k : DepositKey} {demoOnly : Bool} {outcome : DepositModeSwitch}
    {began t t' : ModeTables}
    (h : ModePost (.switchTradingModeOnDeposit k demoOnly) began t t' (.attempt (.closed outcome))) :
    t.outcome k = none ∧ t'.outcome k = some outcome := by
  have hclosed : outcome ≠ .switched → t.outcome k = none ∧ t'.outcome k = some outcome := by
    intro hne
    have h : (t.deposit k).any (fun d => d.modeSwitch.isNone) ∧
        t' = t.setDeposit k (ModeDeposit.closed outcome) := by
      cases outcome with
      | switched => exact absurd rfl hne
      | _ => exact h
    obtain ⟨d, hd, hwaits⟩ := (Option.any_eq_true _ _).mp h.1
    refine ⟨?_, ?_⟩
    · exact (congrArg (Option.bind · ModeDeposit.modeSwitch) hd).trans (Option.isNone_iff_eq_none.mp hwaits)
    · rw [h.2]
      show Option.bind (modifyKey k _ t.deposit k) _ = _
      unfold modifyKey
      rw [if_pos rfl, hd]
      rfl
  by_cases hne : outcome = .switched
  · subst hne
    obtain ⟨-, uid, hchange, -⟩ := h
    obtain ⟨d, hd, hwaits, -⟩ := hchange.waiting k List.mem_cons_self
    refine ⟨(congrArg (Option.bind · ModeDeposit.modeSwitch) hd).trans hwaits, ?_⟩
    rw [hchange.eq]
    show Option.bind (if k ∈ [k] then _ else _) _ = _
    rw [if_pos List.mem_cons_self, hd]
    rfl
  · exact hclosed hne

/-- What a run has answered of one deposit. -/
structure ClosedOnce (k : DepositKey) (start : AccountsDb) (answers : List (ModeCall × ModeReply))
    (db : AccountsDb) : Prop where
  grows : start.modeTables.Grows db.modeTables
  once : answers.countP (closes k) ≤
    if (start.modeTables.outcome k).isNone && (db.modeTables.outcome k).isSome then 1 else 0
  kept : ∀ demoOnly outcome, (.switchTradingModeOnDeposit k demoOnly, .attempt (.closed outcome)) ∈
    answers →
    db.modeTables.outcome k = some outcome

theorem ClosedOnce.commit {k : DepositKey} {start db db' began : AccountsDb}
    {answers : List (ModeCall × ModeReply)} {call : ModeCall} {reply : ModeReply}
    (h : ClosedOnce k start answers db) (hgrows : db.modeTables.Grows db'.modeTables)
    (hpost : ModePost call began.modeTables db.modeTables db'.modeTables reply) :
    ClosedOnce k start (answers ++ [(call, reply)]) db' := by
  have hstart : (db.modeTables.outcome k) = none → start.modeTables.outcome k = none := by
    intro hnone
    cases hsome : start.modeTables.outcome k with
    | none => rfl
    | some o =>
      rw [outcome_grows hsome h.grows] at hnone
      cases hnone
  by_cases hcloses : closes k (call, reply) = true
  · obtain ⟨demoOnly, outcome, heq⟩ := closes_eq_true hcloses
    obtain ⟨rfl, rfl⟩ := Prod.mk.inj heq
    obtain ⟨hnone, hsome⟩ := outcome_of_closes hpost
    have hbefore : answers.countP (closes k) = 0 := by
      have hle := h.once
      rw [hnone, Option.isSome_none, Bool.and_false, if_neg Bool.false_ne_true] at hle
      exact Nat.le_zero.mp hle
    refine ⟨h.grows.trans hgrows, ?_, fun demoOnly' outcome' hmem => ?_⟩
    · rw [List.countP_append, hbefore, hstart hnone, hsome]
      simp [closes]
    · rcases List.mem_append.mp hmem with hmem | hmem
      · have hkept := h.kept demoOnly' outcome' hmem
        rw [hnone] at hkept
        cases hkept
      · obtain ⟨-, hreply⟩ := Prod.mk.inj (List.mem_singleton.mp hmem)
        cases hreply
        exact hsome
  · refine ⟨h.grows.trans hgrows, ?_, fun demoOnly outcome hmem => ?_⟩
    · rw [List.countP_append, List.countP_singleton, if_neg hcloses, Nat.add_zero]
      refine h.once.trans ?_
      by_cases hsome : (db.modeTables.outcome k).isSome = true
      · rw [hsome, outcome_isSome_grows hsome hgrows]
      · rw [Bool.eq_false_of_not_eq_true hsome, Bool.and_false, if_neg Bool.false_ne_true]
        exact Nat.zero_le _
    · rcases List.mem_append.mp hmem with hmem | hmem
      · exact outcome_grows (h.kept demoOnly outcome hmem) hgrows
      · refine absurd ?_ hcloses
        rw [← List.mem_singleton.mp hmem]
        exact decide_eq_true rfl

theorem closedOnce_run {w : StoreWorld AccountsDb AccountsLock AccountsError ModeReply ModeCall}
    (hw : ModeWorldOk w) (k : DepositKey) (acts : List (StoreAct ModeCall)) :
    ClosedOnce k w.db (StoreWorld.answers ModeCall.program w acts)
      (run (StoreWorld.act ModeCall.program) w acts).db := by
  have hstart : ClosedOnce k w.db [] w.db :=
    ⟨Grows.refl _, Nat.zero_le _, fun _ _ hmem => absurd hmem List.not_mem_nil⟩
  have hrun := mode_sound.history (H := fun answers db => ClosedOnce k w.db answers db) hw hstart
    (fun answers call began db db' reply _ _ hrely hpost hH => hH.commit hrely hpost) acts
  exact hrun

/-- **A deposit is closed once.**  Over any run the passes answer at most one outcome for a deposit, none
for one that had an outcome, and the outcome answered is the row's from then on. -/
theorem deposits_closed_once (h : db.modeTables.Ok) (acts : List (StoreAct ModeCall)) (k : DepositKey) :
    let answers := StoreWorld.answers ModeCall.program ⟨db, []⟩ acts
    answers.countP (closes k) ≤ 1 ∧ ((db.modeSwitchOf k).isSome → answers.countP (closes k) = 0) ∧
    ∀ demoOnly outcome, (.switchTradingModeOnDeposit k demoOnly, .attempt (.closed outcome)) ∈ answers →
      (modeRun db acts).db.modeSwitchOf k = some outcome := by
  intro answers
  have hrun : ClosedOnce k db answers (modeRun db acts).db :=
    closedOnce_run (Protocol.WorldOk.initial h) k acts
  refine ⟨hrun.once.trans ?_, fun hsome => ?_, fun demoOnly outcome hmem => ?_⟩
  · split
    · exact le_refl 1
    · exact Nat.zero_le 1
  · have hle := hrun.once
    rw [outcome_modeTables db, Option.isNone_eq_false_iff.mpr hsome, Bool.false_and,
      if_neg Bool.false_ne_true]
      at hle
    exact Nat.le_zero.mp hle
  · rw [← outcome_modeTables]
    exact hrun.kept demoOnly outcome hmem

theorem deposits_closed_once_waiting :
    (StoreWorld.answers ModeCall.program ⟨waitingStore, []⟩ racingPasses).countP
      (closes (.binodex, "p".toList)) = 1 :=
  le_antisymm (deposits_closed_once waitingStore_ok racingPasses (.binodex, "p".toList)).1
    (by decide)

theorem not_mem_of_countP {k : DepositKey} {answers : List (ModeCall × ModeReply)}
    (h : answers.countP (closes k) = 0) (demoOnly : Bool) (outcome : DepositModeSwitch) :
    (.switchTradingModeOnDeposit k demoOnly, .attempt (.closed outcome)) ∉ answers := by
  intro hmem
  exact List.countP_eq_zero.mp h _ hmem (decide_eq_true rfl)

/-- **The user decided the mode after them.**  Once a switch by the user has committed, no deposit that was
the user's when the switch began is ever closed by a pass. -/
theorem superseded_deposits_stay_closed (h : db.modeTables.Ok) (acts : List (StoreAct ModeCall)) {i : ℕ}
    {r : Running AccountsDb AccountsLock AccountsError ModeReply ModeCall} {telegramUserId : ℕ}
      {mode : TradeMode}
    {stopped : ℕ} (hcall : r.call = .setTradingMode telegramUserId mode)
    (hc : (modeRun db acts).Commits i r (.mode (some ⟨mode, true, stopped⟩))) :
    ∃ user, (modeRun db acts).db.users.find? user.id = some user ∧ user.telegramUserId = telegramUserId ∧
      user.tradingMode ≠ mode ∧
      ∀ k deposit owner, r.began.deposit k = some deposit → deposit.owner = some owner → owner.1 = user.id →
        ∀ (after : List (StoreAct ModeCall)) demoOnly outcome,
          (.switchTradingModeOnDeposit k demoOnly, .attempt (.closed outcome)) ∉
            StoreWorld.answers ModeCall.program (modeRun db (acts ++ [.step i])) after := by
  have hworld := modeRun_ok h acts
  obtain ⟨-, hpost⟩ := hworld.commits hc
  rw [hcall] at hpost
  obtain ⟨uid, stopped', marked, hchange, ⟨u, hu, htelegram⟩, -, hclosed⟩ := hpost
  obtain ⟨user, huser, rfl⟩ := Option.map_eq_some_iff.mp hu
  obtain rfl : user.id = uid := Table.key_of_find? huser
  obtain ⟨u', hu', hne⟩ := hchange.user
  obtain rfl := Option.some.inj (hu.symm.trans hu')
  refine ⟨user, huser, htelegram, hne, fun k deposit owner hdeposit howner hid after => ?_⟩
  have hattributed : r.began.modeTables.Attributed k user.id := by
    refine ⟨_, modeTables_deposit hdeposit, ?_⟩
    show deposit.owner.any _ = true
    rw [howner]
    exact decide_eq_true hid
  have hdb : (modeRun db (acts ++ [.step i])).db = r.writes (modeRun db acts).db := by
    obtain ⟨hr, hprog⟩ := hc
    rw [modeRun_append]
    show ((modeRun db acts).act ModeCall.program (.step i)).db = _
    simp [StoreWorld.act, hr, StoreWorld.next, hprog]
  have hsome : ((modeRun db (acts ++ [.step i])).db.modeTables.outcome k).isSome := by
    rw [hdb]
    exact hclosed k hattributed
  have hrun := closedOnce_run (modeRun_ok h (acts ++ [.step i])) k after
  refine not_mem_of_countP (Nat.le_zero.mp ?_)
  have hle := hrun.once
  rw [Option.isNone_eq_false_iff.mpr hsome, Bool.false_and, if_neg Bool.false_ne_true] at hle
  exact hle

theorem superseded_deposits_stay_closed_waiting :
    ∃ user, (modeRun waitingStore switches).db.users.find? user.id = some user ∧ user.telegramUserId = 910 ∧
      user.tradingMode ≠ .real ∧ ∀ (after : List (StoreAct ModeCall)) demoOnly outcome,
        (.switchTradingModeOnDeposit (.binodex, "p".toList) demoOnly, .attempt (.closed outcome)) ∉
          StoreWorld.answers ModeCall.program (modeRun waitingStore (switches ++ [.step 0])) after := by
  obtain ⟨user, huser, htelegram, hne, hclosed⟩ :=
    superseded_deposits_stay_closed waitingStore_ok switches (i := 0) rfl ⟨rfl, rfl⟩
  have hmem : user ∈ [newUserRow 9 910] := Table.mem_of_find? huser
  obtain rfl := List.mem_singleton.mp hmem
  exact ⟨_, huser, htelegram, hne, hclosed (.binodex, "p".toList) _ (9, 4) rfl rfl rfl⟩

/-- Why a commit changes a mode. -/
def ModeReason (call : ModeCall) (reply : ModeReply) (uid : UserId) (mode : TradeMode)
    (outcome : DepositModeSwitch) (marked : List DepositKey) (t : ModeTables) : Prop :=
  (∃ telegramUserId stopped, call = .setTradingMode telegramUserId mode ∧
    reply = .mode (some ⟨mode, true, stopped⟩) ∧ t.HasTelegram telegramUserId uid) ∨
  ∃ k, call = .switchTradingModeOnDeposit k false ∧ reply = .attempt (.closed .switched) ∧ mode = .real ∧
    outcome = .switched ∧ marked = [k] ∧ t.Switchable k uid

/-- The sessions and the modes stay. -/
def ModesKept (t t' : ModeTables) : Prop :=
  t'.session = t.session ∧
    ∀ uid u u', t.user uid = some u → t'.user uid = some u' → u'.tradingMode = u.tradingMode

theorem modesKept_of_eq {t t' : ModeTables} (huser : t'.user = t.user) (hsession : t'.session = t.session) :
    ModesKept t t' := by
  refine ⟨hsession, fun uid u u' hu hu' => ?_⟩
  rw [huser, hu] at hu'
  exact congrArg ModeUser.tradingMode (Option.some.inj hu').symm

/-- **What a commit does to the modes and the sessions**: nothing, a switch, a start or a stop. -/
theorem ModePost.cases {call : ModeCall} {began t t' : ModeTables} {reply : ModeReply}
    (h : ModePost call began t t' reply) :
    ModesKept t t' ∨
    (∃ uid mode outcome stopped marked, ModeChange uid mode outcome stopped marked t t' ∧
      ModeReason call reply uid mode outcome marked t) ∨
    (∃ input demoOnly, call = .createTradingSession input demoOnly ∧ reply = .started input.row ∧
      t.Startable input demoOnly ∧ t' = t.addSession input.row) ∨
    ∃ id, t' = t.stopSession id := by
  cases call with
  | setTradingMode telegramUserId mode =>
    cases reply with
    | mode result =>
      unfold ModePost at h
      dsimp only at h
      split at h
      · obtain ⟨uid, stopped, marked, hchange, htelegram, rfl, -⟩ := h
        exact .inr (.inl ⟨uid, mode, _, stopped, marked, hchange, .inl ⟨_, _, rfl, rfl, htelegram⟩⟩)
      · exact .inl (modesKept_of_eq (congrArg ModeTables.user h) (congrArg ModeTables.session h))
    | _ => exact h.elim
  | switchTradingModeOnDeposit k demoOnly =>
    cases reply with
    | attempt attempt =>
      cases attempt with
      | closed outcome =>
        by_cases hswitched : outcome = .switched
        · subst hswitched
          obtain ⟨rfl, uid, hchange, hswitchable⟩ := h
          exact .inr (.inl ⟨uid, _, _, _, _, hchange, .inr ⟨k, rfl, rfl, rfl, rfl, rfl, hswitchable⟩⟩)
        · have h : (t.deposit k).any (fun d => d.modeSwitch.isNone) ∧
              t' = t.setDeposit k (ModeDeposit.closed outcome) := by
            cases outcome with
            | switched => exact absurd rfl hswitched
            | _ => exact h
          obtain ⟨-, rfl⟩ := h
          exact .inl (modesKept_of_eq rfl rfl)
      | sessionActive => exact .inl (modesKept_of_eq (congrArg ModeTables.user h)
        (congrArg ModeTables.session h))
      | gone => exact .inl (modesKept_of_eq (congrArg ModeTables.user h) (congrArg ModeTables.session h))
    | _ => exact h.elim
  | createTradingSession input demoOnly =>
    cases reply with
    | started session =>
      obtain ⟨rfl, hstartable, hafter⟩ := h
      exact .inr (.inr (.inl ⟨input, demoOnly, rfl, rfl, hstartable, hafter⟩))
    | _ => exact h.elim
  | stopTradingSession id =>
    cases reply with
    | stopped stopped =>
      unfold ModePost at h
      dsimp only at h
      split at h
      · exact .inr (.inr (.inr ⟨id, h.2⟩))
      · exact .inl (modesKept_of_eq (congrArg ModeTables.user h) (congrArg ModeTables.session h))
    | _ => exact h.elim
  | _ =>
    cases reply with
    | done =>
      have hleaves : t.Leaves t' := h
      refine .inl ⟨hleaves.sessions, fun uid u u' hu hu' => ?_⟩
      rcases hleaves.modes uid u' hu' with ⟨u₀, hu₀, hmode⟩ | ⟨hnone, -⟩
      · obtain rfl := Option.some.inj (hu.symm.trans hu₀)
        exact hmode
      · rw [hu] at hnone
        cases hnone
    | _ => exact h.elim

/-- A commit changes one user's mode. -/
theorem mode_kept {uid uid' : UserId} {mode : TradeMode} {outcome : DepositModeSwitch}
    {stopped : List SessionId} {marked : List DepositKey} {t t' : ModeTables} {u u' : ModeUser}
    (h : ModeChange uid' mode outcome stopped marked t t') (hu : t.user uid = some u)
      (hu' : t'.user uid = some u')
    (hne : u'.tradingMode ≠ u.tradingMode) : uid' = uid ∧ u'.tradingMode = mode := by
  have hafter : modifyKey uid' (fun u => { u with tradingMode := mode }) t.user uid = some u' := by
    have heq := h.eq
    subst heq
    exact hu'
  by_cases hid : uid' = uid
  · subst hid
    unfold modifyKey at hafter
    rw [if_pos rfl, hu] at hafter
    obtain rfl := Option.some.inj hafter
    exact ⟨rfl, rfl⟩
  · rw [modifyKey_ne hid, hu] at hafter
    obtain rfl := Option.some.inj hafter
    exact absurd rfl hne

/-- Why a user's mode changed. -/
def ModeCause (w w' : StoreWorld AccountsDb AccountsLock AccountsError ModeReply ModeCall)
    (act : StoreAct ModeCall) (user : UserRow) (mode : TradeMode) : Prop :=
  ∃ i r, act = .step i ∧
    ((∃ stopped, r.call = .setTradingMode user.telegramUserId mode ∧
      w.Commits i r (.mode (some ⟨mode, true, stopped⟩))) ∨
    (∃ k deposit owner, r.call = .switchTradingModeOnDeposit k false ∧
      w.Commits i r (.attempt (.closed .switched)) ∧ mode = .real ∧ user.status ≠ .blocked ∧
      w.db.deposit k = some deposit ∧ deposit.owner = some owner ∧ owner.1 = user.id ∧
      deposit.modeSwitch = none ∧ w'.db.modeSwitchOf k = some .switched ∧
      ∀ session ∈ w.db.tradingSessions.rows, w.db.sessionUser session = some user.id →
        session.status = .stopped))

/-- **A mode changes for a cause**: the user's own switch, or a deposit of an unblocked user that runs no
session, closed in the same commit. -/
theorem mode_changes_have_a_cause (h : db.modeTables.Ok) (acts : List (StoreAct ModeCall))
    (act : StoreAct ModeCall) (user user' : UserRow)
    (huser : (modeRun db acts).db.users.find? user.id = some user)
    (huser' : (modeRun db (acts ++ [act])).db.users.find? user.id = some user')
    (hne : user'.tradingMode ≠ user.tradingMode) :
    ModeCause (modeRun db acts) (modeRun db (acts ++ [act])) act user user'.tradingMode := by
  have hworld := modeRun_ok h acts
  have hu := modeTables_user huser
  have hu' := modeTables_user huser'
  have hact : modeRun db (acts ++ [act]) = (modeRun db acts).act ModeCall.program act :=
    modeRun_append db acts [act]
  have hsame : (∀ uid u u', (modeRun db acts).db.modeTables.user uid = some u →
      (modeRun db (acts ++ [act])).db.modeTables.user uid = some u' → u'.tradingMode = u.tradingMode) →
        False :=
    fun hkept => hne (hkept user.id _ _ hu hu')
  cases hcommitted : (modeRun db acts).committed act with
  | none =>
    refine (hsame fun uid u u' hu hu' => ?_).elim
    rw [hact, StoreWorld.db_of_not_committed hcommitted, hu] at hu'
    exact congrArg ModeUser.tradingMode (Option.some.inj hu').symm
  | some p =>
    obtain ⟨call, reply⟩ := p
    obtain ⟨i, r, rfl, hc, rfl, hdb⟩ := StoreWorld.committed_eq_some hcommitted
    obtain ⟨-, hpost⟩ := hworld.commits hc
    rw [← hdb, ← hact] at hpost
    rcases hpost.cases with ⟨-, hkept⟩ | ⟨uid, mode, outcome, stopped, marked, hchange, hreason⟩ |
      ⟨input, demoOnly, -, -, -, hafter⟩ | ⟨id, hafter⟩
    · exact (hsame hkept).elim
    · obtain ⟨rfl, hmode⟩ := mode_kept hchange hu hu' hne
      have hmode : user'.tradingMode = mode := hmode
      refine ⟨i, r, rfl, ?_⟩
      rcases hreason with ⟨telegramUserId, n, hcall, rfl, u, hfound, htelegram⟩ |
        ⟨k, hcall, rfl, rfl, rfl, rfl, hswitchable⟩
      · obtain rfl := Option.some.inj (hu.symm.trans hfound)
        have htelegram : user.telegramUserId = telegramUserId := htelegram
        rw [hmode, htelegram]
        exact .inl ⟨n, hcall, hc⟩
      · obtain ⟨d, hd, hwaits, howner⟩ := hchange.waiting k List.mem_cons_self
        obtain ⟨deposit, hdeposit, rfl⟩ := Option.map_eq_some_iff.mp hd
        obtain ⟨owner, howner, hid⟩ := (Option.any_eq_true _ _).mp howner
        obtain ⟨u, hfound, hstatus, -⟩ := hswitchable.user
        obtain rfl := Option.some.inj (hu.symm.trans hfound)
        rw [hcall] at hpost
        refine .inr ⟨k, deposit, owner, hcall, hc, hmode, hstatus, hdeposit, howner, of_decide_eq_true
          hid, hwaits,
          ?_, fun session hmem hsession => ?_⟩
        · rw [← outcome_modeTables]
          exact (outcome_of_closes hpost).2
        · refine hswitchable.idle session.id session (Table.find?_of_mem hmem) ?_
          obtain ⟨account, haccount, hid⟩ := Option.map_eq_some_iff.mp hsession
          exact (congrArg (Option.map ModeAccount.userId) (modeTables_account haccount)).trans
            (congrArg some hid)
    · refine (hsame fun uid u u' hu hu' => ?_).elim
      rw [hafter] at hu'
      exact congrArg ModeUser.tradingMode (Option.some.inj (hu'.symm.trans hu))
    · refine (hsame fun uid u u' hu hu' => ?_).elim
      rw [hafter] at hu'
      exact congrArg ModeUser.tradingMode (Option.some.inj (hu'.symm.trans hu))

theorem mode_changes_have_a_cause_waiting :
    ModeCause (modeRun waitingStore passes) (modeRun waitingStore (passes ++ [.step 0])) (.step 0)
      (newUserRow 9 910) .real :=
  mode_changes_have_a_cause waitingStore_ok passes (.step 0) (newUserRow 9 910)
    { newUserRow 9 910 with tradingMode := .real } rfl rfl (by decide)

/-- A session after a commit was there before, or it is the one that started. -/
theorem session_before {call : ModeCall} {began t t' : ModeTables} {reply : ModeReply} {id : SessionId}
    {s : TradingSessionRow} (h : ModePost call began t t' reply) (hs : t'.session id = some s) :
    (∃ old, t.session id = some old ∧ old.brokerAccountId = s.brokerAccountId ∧ old.mode = s.mode) ∨
    ∃ input demoOnly, call = .createTradingSession input demoOnly ∧ reply = .started input.row ∧ s =
      input.row ∧
      t.Startable input demoOnly := by
  rcases h.cases with ⟨hsession, -⟩ | ⟨uid, mode, outcome, stopped, marked, hchange, -⟩ |
    ⟨input, demoOnly, hcall, hreply, hstartable, hafter⟩ | ⟨i, hafter⟩
  · rw [hsession] at hs
    exact .inl ⟨s, hs, rfl, rfl⟩
  · rw [hchange.eq] at hs
    by_cases hid : id ∈ stopped
    · obtain ⟨old, hold, rfl⟩ := Option.map_eq_some_iff.mp ((if_pos hid).symm.trans hs)
      exact .inl ⟨old, hold, rfl, rfl⟩
    · exact .inl ⟨s, (session_changed hid).symm.trans hs, rfl, rfl⟩
  · have hs : insertKey input.newSessionId input.row t.session id = some s := by
      rw [hafter] at hs
      exact hs
    rw [insertKey_free hstartable.fresh] at hs
    split at hs
    · exact .inr ⟨input, demoOnly, hcall, hreply, (Option.some.inj hs).symm, hstartable⟩
    · exact .inl ⟨s, hs, rfl, rfl⟩
  · rw [hafter] at hs
    obtain ⟨old, hold, rfl | rfl⟩ := of_modifyKey hs
    · exact .inl ⟨_, hold, rfl, rfl⟩
    · exact .inl ⟨old, hold, rfl, rfl⟩

/-- Where a session of a store comes from. -/
def SessionOrigin (start : AccountsDb) (answers : List (ModeCall × ModeReply))
    (session : TradingSessionRow) : Prop :=
  (∃ old ∈ start.tradingSessions.rows, old.id = session.id ∧ old.brokerAccountId = session.brokerAccountId ∧
    old.mode = session.mode) ∨
  ∃ input demoOnly, (.createTradingSession input demoOnly, .started input.row) ∈ answers ∧
    session.id = input.newSessionId ∧ session.brokerAccountId = input.brokerAccountId ∧
    session.mode = input.mode ∧ (session.mode = .real → demoOnly = false)

def SessionsCameFrom (start : AccountsDb) (answers : List (ModeCall × ModeReply)) (db : AccountsDb) :
    Prop :=
  ∀ id session, db.modeTables.session id = some session → SessionOrigin start answers session

/-- **Where the sessions come from.**  A session of any reachable store was there at the start, or a commit
of the run started it with its account and its mode, a real one only where the process is not demo-only. -/
theorem sessions_come_from_starts (h : db.modeTables.Ok) (acts : List (StoreAct ModeCall)) :
    ∀ session ∈ (modeRun db acts).db.tradingSessions.rows,
      SessionOrigin db (StoreWorld.answers ModeCall.program ⟨db, []⟩ acts) session := by
  have hstart : SessionsCameFrom db [] db := by
    intro id session hs
    exact .inl ⟨session, Table.mem_of_find? (t := db.tradingSessions) hs, rfl, rfl, rfl⟩
  have hrun := mode_sound.history (H := SessionsCameFrom db) (Protocol.WorldOk.initial h) hstart
    (fun answers call began s s' reply _ _ _ hpost hH id session hs => ?_) acts
  · exact fun session hmem => hrun session.id session (Table.find?_of_mem hmem)
  · have hid : session.id = id := Table.key_of_find? (t := s'.tradingSessions) hs
    rcases session_before hpost hs with ⟨old, hold, haccount, hmode⟩ | ⟨input, demoOnly, rfl, rfl, rfl,
      hstartable⟩
    · have hold_id : old.id = id := Table.key_of_find? (t := s.tradingSessions) hold
      rcases hH id old hold with ⟨first, hfirst, hfirstId, haccount', hmode'⟩ |
        ⟨input, demoOnly, hmem, hinput, haccount', hmode', hreal⟩
      · exact .inl ⟨first, hfirst, hfirstId.trans (hold_id.trans hid.symm), haccount'.trans haccount,
          hmode'.trans hmode⟩
      · refine .inr ⟨input, demoOnly, List.mem_append_left _ hmem, ?_, haccount.symm.trans haccount',
          hmode.symm.trans hmode', fun hr => hreal (hmode.trans hr)⟩
        rw [hid, ← hold_id]
        exact hinput
    · refine .inr ⟨input, demoOnly, List.mem_append_right _ List.mem_cons_self, rfl, rfl, rfl,
        fun hreal => ?_⟩
      cases demoOnly with
      | false => rfl
      | true =>
        have hdemo := hstartable.allowed rfl
        rw [show input.mode = .real from hreal] at hdemo
        cases hdemo

theorem sessions_come_from_starts_waiting :
    waitingStore.modeTables.Ok ∧
      ∀ session ∈ (modeRun waitingStore startsAndSwitches).db.tradingSessions.rows,
        SessionOrigin waitingStore (StoreWorld.answers ModeCall.program ⟨waitingStore, []⟩ startsAndSwitches)
          session :=
  ⟨waitingStore_ok, sessions_come_from_starts waitingStore_ok startsAndSwitches⟩

/-- **A session starts for its owner alone.**  At its commit the account is active and not halted, its owner
is the caller, active and in the session's mode, and the account runs no other session; these hold under
locks, so no block, revocation or switch can have committed in between. -/
theorem sessions_start_for_their_owner (h : db.modeTables.Ok) (acts : List (StoreAct ModeCall)) {i : ℕ}
    {r : Running AccountsDb AccountsLock AccountsError ModeReply ModeCall}
      {input : CreateTradingSessionInput}
    {demoOnly : Bool} {session : TradingSessionRow} (hcall : r.call = .createTradingSession input demoOnly)
    (hc : (modeRun db acts).Commits i r (.started session)) :
    session = input.row ∧ (demoOnly = true → session.mode = .demo) ∧
    ∃ account user, (modeRun db acts).db.brokerAccounts.find? session.brokerAccountId = some account ∧
      account.status = .active ∧ account.tradingHalted = false ∧
      (modeRun db acts).db.users.find? account.userId = some user ∧ user.telegramUserId =
        input.telegramUserId ∧
      user.status = .active ∧ user.tradingMode = session.mode ∧
      (∀ other ∈ (modeRun db acts).db.tradingSessions.rows, other.brokerAccountId =
        session.brokerAccountId →
        other.status ≠ .active) := by
  obtain ⟨-, hpost⟩ := (modeRun_ok h acts).commits hc
  rw [hcall] at hpost
  obtain ⟨rfl, hstartable, -⟩ := hpost
  obtain ⟨a, u, ha, hactive, hhalted, hu, htelegram, hstatus, hmode⟩ := hstartable.account
  obtain ⟨account, haccount, rfl⟩ := Option.map_eq_some_iff.mp ha
  obtain ⟨user, huser, rfl⟩ := Option.map_eq_some_iff.mp hu
  refine ⟨rfl, hstartable.allowed, account, user, haccount, hactive, hhalted, huser, htelegram, hstatus,
    hmode,
    fun other hmem heq hrunning => ?_⟩
  exact hstartable.alone other.id other (Table.find?_of_mem hmem) hrunning heq

theorem sessions_start_for_their_owner_waiting :
    ∃ account user, (modeRun waitingStore starts).db.brokerAccounts.find? 4 = some account ∧
      account.status = .active ∧ (modeRun waitingStore starts).db.users.find? account.userId = some user ∧
      user.telegramUserId = 910 := by
  obtain ⟨r, hc, hcall⟩ : ∃ r, (modeRun waitingStore starts).Commits 0 r
    (.started ⟨30, 4, .demo, .active⟩) ∧
      r.call = .createTradingSession ⟨910, 4, .demo, 30⟩ true := ⟨_, ⟨rfl, rfl⟩, rfl⟩
  obtain ⟨-, -, account, user, haccount, hactive, -, huser, htelegram, -⟩ :=
    sessions_start_for_their_owner waitingStore_ok starts hcall hc
  exact ⟨account, user, haccount, hactive, huser, htelegram⟩

end Runs

end Binarius
