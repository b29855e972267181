import Mathlib.Tactic
import Binarius.Lib.Runs
import Binarius.Lib.WaitsFor
import Binarius.Db.LockOrder

/-!
# Db.NoDeadlock — the waits of the nine transactions never make a cycle

* `LockTarget.rank`: **the order of the locks**: by table, and of two users the older one later.
* `Checked`: a script asks in that order, but for what it already holds, locks nobody waits behind, and
  the rows of one statement.
* `Guarded`: those rows are behind a lock of their own: two statements never meet on one.
* `lock_order_no_deadlock`: **in any run of any number of them the waits make no cycle.**
-/

namespace Binarius

open Lib

/-- The tables in the order they are locked. -/
def LockTarget.level : LockTarget → ℕ
  | .telegramId _ => 0
  | .user _ => 1
  | .session _ => 2
  | .referral _ => 2
  | .bonusRule _ => 2
  | .invitee _ => 2
  | .charge _ => 2
  | .starPayment _ => 3
  | .brokerUserId _ => 3
  | .account _ => 4
  | .activeSession _ => 5
  | .depositPayment _ => 5
  | .postbackId _ => 6
  | .deposit _ => 7
  | .linkBonus _ => 8
  | .referralReward _ => 9
  | .ledgerPayment _ => 9

/-- Of two users the older is later. -/
def LockTarget.age : LockTarget → ℤ
  | .user u => -u
  | _ => 0

def LockTarget.rank (t : LockTarget) : ℕ ×ₗ ℤ := toLex (t.level, t.age)

theorem rank_lt_of_level {t t' : LockTarget} (h : t.level < t'.level) : t.rank < t'.rank :=
  Prod.Lex.toLex_lt_toLex.mpr (.inl h)

namespace LockRequest

/-- A key share that nothing blocks: no update changes a key of its table. -/
def Free (q : LockRequest) : Prop := q.mode = .keyShare ∧ q.target.level ≠ 7

/-- At least as strong, on the same target. -/
def Covers (p q : LockRequest) : Prop :=
  p.target = q.target ∧ p.mode ≠ .meet ∧ ∀ m : RowLockMode, m.conflicts q.mode = true → m.conflicts p.mode = true

/-- The last request of its transaction: a journal's foreign key, or the mark of a deposit alone. -/
def Terminal (q : LockRequest) : Prop :=
  q.target.level = 7 ∧ (q.mode = .keyShare ∨ (q.mode = .noKeyUpdate ∧ q.account = none))

/-- One of the rows of a statement over deposits. -/
def Writer (q : LockRequest) : Prop :=
  ∃ d, q.target = .deposit d ∧ (q.mode = .update ∨ (q.mode = .noKeyUpdate ∧ q.account ≠ none))

/-- Two rows of one statement. -/
def SameGroup (p q : LockRequest) : Prop :=
  (∃ s s', p.target = .session s ∧ q.target = .session s') ∨ (p.Writer ∧ q.Writer)

end LockRequest

/-- Neither the row of a statement over several nor an account's key. -/
def LockTarget.Plain : LockTarget → Prop
  | .session _ => False
  | .deposit _ => False
  | .brokerUserId _ => False
  | _ => True

section Scripts

variable (world : LockWorld)

/-- The lock a request stands behind. -/
def Guarded (before : List LockRequest) (q : LockRequest) : Prop :=
  match q.target with
  | .session s => q.mode = .noKeyUpdate ∧ lock (.user (world.sessionOwner s)) .noKeyUpdate ∈ before
  | .deposit d => q.Terminal ∨
      (q.mode = .noKeyUpdate ∧ ∃ a, q.account = some a ∧ world.trader a = world.depositTrader d ∧
        lock (.user (world.owner a)) .noKeyUpdate ∈ before) ∨
      (q.mode = .update ∧ ∃ a, world.trader a = world.depositTrader d ∧
        lock (.user (world.owner a)) .noKeyUpdate ∈ before ∧
        (⟨.brokerUserId (world.trader a), .insert, some a⟩ ∈ before ∨
          ⟨.account a, .noKeyUpdate, some a⟩ ∈ before))
  | .brokerUserId b => q.mode ≠ .update ∧ (q.mode = .insert → ∃ a, q.account = some a ∧ world.trader a = b)
  | _ => q.mode ≠ .update

/-- A request in its place. -/
structure RequestOk (before : List LockRequest) (q : LockRequest) : Prop where
  order : q.Free ∨ (∃ p ∈ before, p.Covers q) ∨
    ∀ p ∈ before, p.target ≠ q.target ∧ (p.target.rank < q.target.rank ∨ p.SameGroup q)
  guard : Guarded world before q

/-- Every request of a list in its place. -/
def Checked (before : List LockRequest) : List LockRequest → Prop
  | [] => True
  | q :: rest => RequestOk world before q ∧ Checked (before ++ [q]) rest

variable {world} {before : List LockRequest}

theorem checked_append {xs ys : List LockRequest} :
    Checked world before (xs ++ ys) ↔ Checked world before xs ∧ Checked world (before ++ xs) ys := by
  induction xs generalizing before with
  | nil => simp [Checked]
  | cons q xs ih =>
    rw [List.cons_append]
    show RequestOk world before q ∧ Checked world (before ++ [q]) (xs ++ ys) ↔ _
    rw [ih, List.append_assoc, List.singleton_append, ← and_assoc]
    rfl

theorem checked_split {xs done rest : List LockRequest} {q : LockRequest} (h : Checked world before xs)
    (hsplit : xs = done ++ q :: rest) : RequestOk world (before ++ done) q := by
  rw [hsplit, checked_append] at h
  exact h.2.1

theorem guarded_mono {before' : List LockRequest} {q : LockRequest} (h : Guarded world before q)
    (hsub : ∀ p ∈ before, p ∈ before') : Guarded world before' q := by
  unfold Guarded at h ⊢
  cases htarget : q.target with
  | session s =>
    rw [htarget] at h
    exact ⟨h.1, hsub _ h.2⟩
  | deposit d =>
    rw [htarget] at h
    rcases h with hterminal | ⟨hmode, a, haccount, htrader, hmem⟩ | ⟨hmode, a, htrader, hmem, hheld⟩
    · exact .inl hterminal
    · exact .inr (.inl ⟨hmode, a, haccount, htrader, hsub _ hmem⟩)
    · exact .inr (.inr ⟨hmode, a, htrader, hsub _ hmem, hheld.imp (hsub _) (hsub _)⟩)
  | _ =>
    rw [htarget] at h
    exact h

theorem guarded_plain {t : LockTarget} {m : RowLockMode} {a : Option ℕ} (hplain : t.Plain)
    (hm : m ≠ .update) : Guarded world before ⟨t, m, a⟩ := by
  cases t with
  | session s => cases hplain
  | deposit d => cases hplain
  | brokerUserId b => cases hplain
  | _ => exact hm

/-- Everything before is of an earlier table. -/
def Low (before : List LockRequest) (n : ℕ) : Prop := ∀ p ∈ before, p.target.level < n

theorem low_nil (n : ℕ) : Low [] n := fun p hp => by cases hp

theorem low_append {xs ys : List LockRequest} {n : ℕ} : Low (xs ++ ys) n ↔ Low xs n ∧ Low ys n := by
  unfold Low
  simp only [List.mem_append]
  exact ⟨fun h => ⟨fun p hp => h p (.inl hp), fun p hp => h p (.inr hp)⟩,
    fun h p hp => hp.elim (h.1 p) (h.2 p)⟩

theorem low_cons {q : LockRequest} {xs : List LockRequest} {n : ℕ} :
    Low (q :: xs) n ↔ q.target.level < n ∧ Low xs n := by
  unfold Low
  simp

theorem Low.mono {xs : List LockRequest} {n m : ℕ} (h : Low xs n) (hle : n ≤ m) : Low xs m :=
  fun p hp => (h p hp).trans_le hle

theorem requestOk_of_low {q : LockRequest} (hlow : Low before q.target.level)
    (hguard : Guarded world before q) : RequestOk world before q where
  order := .inr (.inr (fun p hp => ⟨fun heq => absurd (hlow p hp) (by rw [heq]; exact lt_irrefl _),
    .inl (rank_lt_of_level (hlow p hp))⟩))
  guard := hguard

theorem requestOk_low {t : LockTarget} {m : RowLockMode} {a : Option ℕ} (hplain : t.Plain) (hm : m ≠ .update)
    (hlow : Low before t.level) : RequestOk world before ⟨t, m, a⟩ :=
  requestOk_of_low hlow (guarded_plain hplain hm)

theorem requestOk_free {t : LockTarget} (hplain : t.Plain) : RequestOk world before (lock t .keyShare) where
  order := by
    refine .inl ⟨rfl, ?_⟩
    cases t with
    | deposit d => cases hplain
    | _ => simp [lock, LockTarget.level]
  guard := guarded_plain hplain (by simp)

theorem requestOk_again {t : LockTarget} {a : Option ℕ} (b : Option ℕ) (hplain : t.Plain)
    (hp : (⟨t, .noKeyUpdate, b⟩ : LockRequest) ∈ before) : RequestOk world before ⟨t, .noKeyUpdate, a⟩ where
  order := .inr (.inl ⟨_, hp, rfl, by simp, fun _ h => h⟩)
  guard := guarded_plain hplain (by simp)

/-- The rows of one statement, in any order. -/
theorem checked_map {β : Type} {f : β → LockRequest} {xs : List β}
    (hnodup : (xs.map (fun x => (f x).target)).Nodup)
    (hbefore : ∀ x ∈ xs, ∀ p ∈ before, p.target ≠ (f x).target ∧
      (p.target.rank < (f x).target.rank ∨ p.SameGroup (f x)))
    (hgroup : ∀ x ∈ xs, ∀ y ∈ xs, (f x).SameGroup (f y))
    (hguard : ∀ x ∈ xs, Guarded world before (f x)) : Checked world before (xs.map f) := by
  induction xs generalizing before with
  | nil => trivial
  | cons x xs ih =>
    rw [List.map_cons, List.nodup_cons] at hnodup
    rw [List.map_cons]
    refine ⟨⟨.inr (.inr (hbefore x List.mem_cons_self)), hguard x List.mem_cons_self⟩, ih hnodup.2 ?_ ?_ ?_⟩
    · intro y hy p hp
      rcases List.mem_append.mp hp with hp | hp
      · exact hbefore y (List.mem_cons_of_mem _ hy) p hp
      · rw [List.mem_singleton.mp hp]
        refine ⟨fun heq => hnodup.1 ?_, .inr (hgroup x List.mem_cons_self y (List.mem_cons_of_mem _ hy))⟩
        rw [heq]
        exact List.mem_map.mpr ⟨y, hy, rfl⟩
    · exact fun y hy z hz => hgroup y (List.mem_cons_of_mem _ hy) z (List.mem_cons_of_mem _ hz)
    · exact fun y hy => guarded_mono (hguard y (List.mem_cons_of_mem _ hy))
        (fun p hp => List.mem_append.mpr (.inl hp))

end Scripts

/-! ### The scripts -/

section Segments

variable {world : LockWorld} {before : List LockRequest}

theorem low_upsertUser (t u : ℕ) (path : UserPath) : Low (upsertUserLocks t u path) 2 := by
  cases path <;> simp [Low, upsertUserLocks, lock, LockTarget.level]

theorem mem_upsertUser (t u : ℕ) (path : UserPath) :
    lock (.user u) .noKeyUpdate ∈ upsertUserLocks t u path := by
  cases path <;> simp [upsertUserLocks]

theorem rank_upsertUser {t u i : ℕ} (path : UserPath) (hi : i < u) :
    ∀ p ∈ upsertUserLocks t u path, p.target.rank < (LockTarget.user i).rank := by
  have huser : (LockTarget.user u).rank < (LockTarget.user i).rank := by
    refine Prod.Lex.toLex_lt_toLex.mpr (.inr ⟨rfl, ?_⟩)
    show (-(u : ℤ)) < -(i : ℤ)
    omega
  have htelegram : (LockTarget.telegramId t).rank < (LockTarget.user i).rank :=
    rank_lt_of_level Nat.zero_lt_one
  cases path <;> simp [upsertUserLocks, lock, huser, htelegram]

theorem checked_upsertUser (t u : ℕ) (path : UserPath) : Checked world [] (upsertUserLocks t u path) := by
  have hkey : Low [lock (.telegramId t) .insert] (LockTarget.user u).level := by
    simp [Low, lock, LockTarget.level]
  have hkey' : Low [lock (.telegramId t) .meet] (LockTarget.user u).level := by
    simp [Low, lock, LockTarget.level]
  cases path with
  | found => exact ⟨requestOk_low trivial (by simp) (low_nil _), trivial⟩
  | created =>
    exact ⟨requestOk_low trivial (by simp) (low_nil _), requestOk_low trivial (by simp) hkey, trivial⟩
  | raced =>
    exact ⟨requestOk_low trivial (by simp) (low_nil _), requestOk_low trivial (by simp) hkey', trivial⟩

theorem low_inviter (inviter : Option ℕ) : Low (inviterLocks inviter) 2 := by
  cases inviter <;> simp [Low, inviterLocks, lock, LockTarget.level]

/-- **The older user comes after**, whatever the younger one's row took. -/
theorem checked_inviter {u : ℕ} {inviter : Option ℕ} (hinviter : ∀ i ∈ inviter, world.inviter u = some i)
    (hbefore : ∀ i, i < u → ∀ p ∈ before, p.target.rank < (LockTarget.user i).rank) :
    Checked world before (inviterLocks inviter) := by
  cases inviter with
  | none => trivial
  | some i =>
    have hrank := hbefore i (world.older u i (hinviter i rfl))
    refine ⟨⟨.inr (.inr (fun p hp => ⟨fun heq => ?_, .inl (hrank p hp)⟩)),
      guarded_plain (t := .user i) trivial (by simp)⟩, trivial⟩
    have hlt := hrank p hp
    rw [heq] at hlt
    exact lt_irrefl _ hlt

theorem mem_inviter {inviter : Option ℕ} {i : ℕ} (h : i ∈ inviter) :
    lock (.user i) .noKeyUpdate ∈ inviterLocks inviter := by
  cases inviter with
  | none => cases h
  | some j =>
    injection h with h
    subst h
    exact List.mem_cons_self

/-- A bonus: its key comes after all before, its payee's row is held. -/
theorem checked_bonus {key reference : LockTarget} {payee : ℕ} (path : BonusPath) (hkey : key.Plain)
    (hreference : reference.Plain) (hlow : Low before key.level)
    (hpayee : lock (.user payee) .noKeyUpdate ∈ before) :
    Checked world before (bonusLocks key reference payee path) := by
  cases path with
  | skipped => trivial
  | already => exact ⟨requestOk_low hkey (by simp) hlow, trivial⟩
  | granted rule =>
    refine ⟨requestOk_low hkey (by simp) hlow, requestOk_free trivial, requestOk_free hreference,
      requestOk_free trivial, requestOk_again none trivial ?_, trivial⟩
    simp only [List.mem_append]
    exact .inl (.inl (.inl (.inl hpayee)))

theorem low_bonus {key reference : LockTarget} {payee n : ℕ} (path : BonusPath) (hn : 2 < n)
    (hkey : key.level < n) (hreference : reference.level < n) :
    Low (bonusLocks key reference payee path) n := by
  have huser : (LockTarget.user payee).level < n := by
    show 1 < n
    omega
  cases path with
  | skipped => exact low_nil n
  | already => exact low_cons.mpr ⟨hkey, low_nil n⟩
  | granted rule =>
    exact low_cons.mpr ⟨hkey, low_cons.mpr ⟨huser, low_cons.mpr ⟨hreference, low_cons.mpr ⟨hn,
      low_cons.mpr ⟨huser, low_nil n⟩⟩⟩⟩⟩

theorem checked_reward {u : ℕ} {inviter : Option ℕ} (path : BonusPath) (hlow : Low before 9)
    (hinviter : ∀ i ∈ inviter, lock (.user i) .noKeyUpdate ∈ before) :
    Checked world before (rewardLocks u path inviter) := by
  cases inviter with
  | none => trivial
  | some i => exact checked_bonus path trivial trivial hlow (hinviter i rfl)

/-- **The attachment**: the trader's deposits behind the trader's account. -/
theorem checked_attach {u a : ℕ} {deposits : List ℕ} (hlow : Low before 7) (howner : world.owner a = u)
    (hnodup : deposits.Nodup) (htrader : ∀ d ∈ deposits, world.depositTrader d = world.trader a)
    (huser : lock (.user u) .noKeyUpdate ∈ before)
    (haccount : ⟨.brokerUserId (world.trader a), .insert, some a⟩ ∈ before ∨
      ⟨.account a, .noKeyUpdate, some a⟩ ∈ before) :
    Checked world before (attachLocks u a deposits) := by
  unfold attachLocks
  refine checked_append.mpr ⟨checked_map ?_ ?_ ?_ ?_, requestOk_free trivial, requestOk_free trivial, trivial⟩
  · refine (List.nodup_map_iff_inj_on hnodup).mpr (fun d _ d' _ heq => ?_)
    injection heq
  · intro d _ p hp
    refine ⟨fun heq => ?_, .inl (rank_lt_of_level (hlow p hp))⟩
    have hlt := hlow p hp
    rw [heq] at hlt
    exact lt_irrefl _ hlt
  · exact fun d _ d' _ => .inr ⟨⟨d, rfl, .inl rfl⟩, ⟨d', rfl, .inl rfl⟩⟩
  · intro d hd
    refine .inr (.inr ⟨rfl, a, (htrader d hd).symm, ?_, haccount⟩)
    rw [howner]
    exact huser

theorem low_attach (u a : ℕ) (deposits : List ℕ) : Low (attachLocks u a deposits) 8 := by
  unfold attachLocks
  refine low_append.mpr ⟨fun p hp => ?_, ?_⟩
  · obtain ⟨d, -, rfl⟩ := List.mem_map.mp hp
    show 7 < 8
    omega
  · simp [Low, lock, LockTarget.level]

theorem checked_activation {u a : ℕ} {inviter : Option ℕ} {deposits : List ℕ} (linkBonus reward : BonusPath)
    (hlow : Low before 7) (howner : world.owner a = u) (hnodup : deposits.Nodup)
    (htrader : ∀ d ∈ deposits, world.depositTrader d = world.trader a)
    (huser : lock (.user u) .noKeyUpdate ∈ before)
    (hinviter : ∀ i ∈ inviter, lock (.user i) .noKeyUpdate ∈ before)
    (haccount : ⟨.brokerUserId (world.trader a), .insert, some a⟩ ∈ before ∨
      ⟨.account a, .noKeyUpdate, some a⟩ ∈ before) :
    Checked world before (activationLocks u a inviter deposits linkBonus reward) := by
  have hattached : Low (before ++ attachLocks u a deposits) 8 :=
    low_append.mpr ⟨hlow.mono (by omega), low_attach u a deposits⟩
  unfold activationLocks
  refine checked_append.mpr ⟨checked_attach hlow howner hnodup htrader huser haccount,
    checked_append.mpr ⟨checked_bonus linkBonus trivial trivial hattached ?_, checked_reward reward ?_ ?_⟩⟩
  · exact List.mem_append.mpr (.inl huser)
  · exact low_append.mpr ⟨hattached.mono (by omega),
      low_bonus linkBonus (by omega) (by show 8 < 9; omega) (by show 4 < 9; omega)⟩
  · intro i hi
    exact List.mem_append.mpr (.inl (List.mem_append.mpr (.inl (hinviter i hi))))

end Segments

/-- The account's part of a login, and what it leaves for the activation. -/
theorem checked_account {world : LockWorld} {before : List LockRequest} (u a : ℕ) (path : AccountPath)
    (hlow : Low before 2) : Checked world before (TxKind.accountLocks world u a path) ∧
      Low (before ++ TxKind.accountLocks world u a path) 7 ∧
      (⟨.brokerUserId (world.trader a), .insert, some a⟩ ∈ before ++ TxKind.accountLocks world u a path ∨
        ⟨.account a, .noKeyUpdate, some a⟩ ∈ before ++ TxKind.accountLocks world u a path) := by
  have hkey : ∀ (m : RowLockMode) (account : Option ℕ), m ≠ .update → (m = .insert → account = some a) →
      RequestOk world before ⟨.brokerUserId (world.trader a), m, account⟩ :=
    fun m account hm haccount => requestOk_of_low (hlow.mono (by show 2 ≤ 3; omega))
      ⟨hm, fun hinsert => ⟨a, haccount hinsert, rfl⟩⟩
  have hmet : Low (before ++ [lock (.brokerUserId (world.trader a)) .meet]) 4 :=
    low_append.mpr ⟨hlow.mono (by omega), low_cons.mpr ⟨by show 3 < 4; omega, low_nil 4⟩⟩
  cases path with
  | inserted =>
    refine ⟨⟨hkey .insert (some a) (by simp) (fun _ => rfl), requestOk_free trivial, trivial⟩,
      low_append.mpr ⟨hlow.mono (by omega), ?_⟩, .inl ?_⟩
    · simp [TxKind.accountLocks, Low, lock, LockTarget.level]
    · simp [TxKind.accountLocks]
  | existing =>
    refine ⟨⟨hkey .meet none (by simp) (fun h => by cases h), requestOk_low trivial (by simp) hmet,
      requestOk_again (some a) trivial (by simp), trivial⟩,
      low_append.mpr ⟨hlow.mono (by omega), ?_⟩, .inr ?_⟩
    · simp [TxKind.accountLocks, Low, lock, LockTarget.level]
    · simp [TxKind.accountLocks]
  | taken =>
    refine ⟨⟨hkey .meet none (by simp) (fun h => by cases h), requestOk_low trivial (by simp) hmet, trivial⟩,
      low_append.mpr ⟨hlow.mono (by omega), ?_⟩, .inr ?_⟩
    · simp [TxKind.accountLocks, Low, lock, LockTarget.level]
    · simp [TxKind.accountLocks]

theorem checked_link {world : LockWorld} (t : ℕ) {u : ℕ} (user : UserPath) {inviter : Option ℕ} {a : ℕ}
    {account : AccountPath} (activate : Bool) {deposits : List ℕ} (linkBonus reward : BonusPath)
    (h : (TxKind.linkBrokerAccount t u user inviter a account activate deposits linkBonus reward).Valid world) :
    Checked world [] ((TxKind.linkBrokerAccount t u user inviter a account activate deposits linkBonus
      reward).script world) := by
  obtain ⟨hinviter, howner, hnodup, htrader⟩ := h
  have hlow : Low (upsertUserLocks t u user ++ inviterLocks inviter) 2 :=
    low_append.mpr ⟨low_upsertUser t u user, low_inviter inviter⟩
  obtain ⟨haccount, hlow', hheld⟩ := @checked_account world _ u a account hlow
  have huser : lock (.user u) .noKeyUpdate ∈ upsertUserLocks t u user ++ inviterLocks inviter ++
      TxKind.accountLocks world u a account :=
    List.mem_append.mpr (.inl (List.mem_append.mpr (.inl (mem_upsertUser t u user))))
  have hinviters : ∀ i ∈ inviter, lock (.user i) .noKeyUpdate ∈ upsertUserLocks t u user ++
      inviterLocks inviter ++ TxKind.accountLocks world u a account :=
    fun i hi => List.mem_append.mpr (.inl (List.mem_append.mpr (.inr (mem_inviter hi))))
  show Checked world [] (upsertUserLocks t u user ++ (inviterLocks inviter ++
    (TxKind.accountLocks world u a account ++ _)))
  rw [checked_append, List.nil_append, checked_append, checked_append]
  refine ⟨checked_upsertUser t u user, checked_inviter hinviter (fun i hi => rank_upsertUser user hi),
    haccount, ?_⟩
  split_ifs with htaken
  · trivial
  · exact checked_activation linkBonus reward hlow' (howner htaken) hnodup htrader huser hinviters hheld
  · exact checked_reward reward (hlow'.mono (by omega)) hinviters

theorem checked_confirm {world : LockWorld} {u : ℕ} {inviter : Option ℕ} {a : ℕ} {deposits : List ℕ}
    (linkBonus reward : BonusPath)
    (h : (TxKind.confirmBrokerAccount u inviter a deposits linkBonus reward).Valid world) :
    Checked world [] ((TxKind.confirmBrokerAccount u inviter a deposits linkBonus reward).script world) := by
  obtain ⟨hinviter, howner, hnodup, htrader⟩ := h
  have hlow : Low ([lock (.user u) .noKeyUpdate] ++ inviterLocks inviter) 2 :=
    low_append.mpr ⟨low_upsertUser 0 u .found, low_inviter inviter⟩
  have hlow' : Low ([lock (.user u) .noKeyUpdate] ++ inviterLocks inviter ++
      [⟨.account a, .noKeyUpdate, some a⟩, lock (.account a) .noKeyUpdate]) 7 := by
    refine low_append.mpr ⟨hlow.mono (by omega), ?_⟩
    simp [Low, lock, LockTarget.level]
  show Checked world [] ([lock (.user u) .noKeyUpdate] ++ (inviterLocks inviter ++
    ([⟨.account a, .noKeyUpdate, some a⟩, lock (.account a) .noKeyUpdate] ++ _)))
  rw [checked_append, List.nil_append, checked_append, checked_append]
  refine ⟨checked_upsertUser 0 u .found,
    checked_inviter hinviter (fun i hi => @rank_upsertUser 0 u i .found hi),
    ⟨requestOk_low trivial (by simp) (hlow.mono (by show 2 ≤ 4; omega)),
      requestOk_again (some a) trivial (by simp), trivial⟩,
    checked_activation linkBonus reward hlow' howner hnodup htrader (by simp) ?_ (.inr (by simp))⟩
  intro i hi
  exact List.mem_append.mpr (.inl (List.mem_append.mpr (.inr (mem_inviter hi))))

theorem checked_start (world : LockWorld) (t u : ℕ) (created : Bool) (inviter : Option ℕ) :
    Checked world [] ((TxKind.recordUserStart t u created inviter).script world) := by
  have hmode : (if created then RowLockMode.insert else .meet) ≠ .update := by
    cases created <;> simp
  refine ⟨requestOk_low trivial hmode (low_nil _), requestOk_low trivial (by simp) ?_, ?_⟩
  · simp [Low, lock, LockTarget.level]
  · cases inviter with
    | none => trivial
    | some i =>
      refine ⟨requestOk_low trivial (by simp) ?_, requestOk_free trivial, requestOk_free trivial, trivial⟩
      simp [Low, lock, LockTarget.level]

theorem low_deposit (payment : ℕ) (recorded : Bool) (owner : Option (ℕ × ℕ)) :
    Low (TxKind.depositLocks payment recorded owner) 6 := by
  cases owner <;> simp [TxKind.depositLocks, Low, lock, LockTarget.level]

theorem checked_deposit {world : LockWorld} {before : List LockRequest} (payment : ℕ) (recorded : Bool)
    (owner : Option (ℕ × ℕ)) (hlow : Low before 5) :
    Checked world before (TxKind.depositLocks payment recorded owner) := by
  have hmode : (if recorded then RowLockMode.insert else .meet) ≠ .update := by
    cases recorded <;> simp
  refine ⟨requestOk_low trivial hmode hlow, ?_⟩
  cases owner with
  | none => trivial
  | some o => exact ⟨requestOk_free trivial, requestOk_free trivial, trivial⟩

theorem checked_postback (world : LockWorld) (account : Option ℕ) (payment : ℕ) (recorded : Bool)
    (owner : Option (ℕ × ℕ)) (postback : ℕ) (journaled : Bool) (deposit : ℕ) :
    Checked world [] ((TxKind.recordPostback account payment recorded owner postback journaled
      deposit).script world) := by
  have hmode : (if journaled then RowLockMode.insert else .meet) ≠ .update := by
    cases journaled <;> simp
  have hfirst : Checked world [] (TxKind.sharedAccountLocks account) ∧
      Low (TxKind.sharedAccountLocks account) 5 := by
    cases account with
    | none => exact ⟨trivial, low_nil 5⟩
    | some a =>
      exact ⟨⟨requestOk_low trivial (by simp) (low_nil _), trivial⟩, low_cons.mpr
        ⟨by show 4 < 5; omega, low_nil 5⟩⟩
  have hsecond := low_deposit payment recorded owner
  show Checked world [] ((_ ++ (TxKind.depositLocks payment recorded owner ++ _)) ++ _)
  rw [checked_append, checked_append, checked_append]
  refine ⟨⟨hfirst.1, checked_deposit payment recorded owner hfirst.2, requestOk_low trivial hmode ?_,
    trivial⟩, requestOk_of_low ?_ (.inl ⟨rfl, .inl rfl⟩), trivial⟩
  · exact low_append.mpr ⟨hfirst.2.mono (by show 5 ≤ 6; omega), hsecond⟩
  · refine low_append.mpr ⟨low_nil _, low_append.mpr ⟨hfirst.2.mono (by show 5 ≤ 7; omega), low_append.mpr
      ⟨hsecond.mono (by show 6 ≤ 7; omega), low_cons.mpr ⟨by show 6 < 7; omega, low_nil _⟩⟩⟩⟩

theorem checked_mode {world : LockWorld} {u : ℕ} {sessions : List ℕ} {deposits : List (ℕ × ℕ)}
    (h : (TxKind.setTradingMode u sessions deposits).Valid world) :
    Checked world [] ((TxKind.setTradingMode u sessions deposits).script world) := by
  obtain ⟨hsessions, howner, hdeposits, htrader⟩ := h
  have hfirst : Low [lock (.user u) .noKeyUpdate] 2 := low_upsertUser 0 u .found
  have hsecond : Low ([lock (.user u) .noKeyUpdate] ++
      sessions.map (fun s => lock (.session s) .noKeyUpdate)) 7 := by
    refine low_append.mpr ⟨hfirst.mono (by omega), fun p hp => ?_⟩
    obtain ⟨s, -, rfl⟩ := List.mem_map.mp hp
    show 2 < 7
    omega
  have hbelow : ∀ (before : List LockRequest) (q : LockRequest), Low before q.target.level →
      ∀ p ∈ before, p.target ≠ q.target ∧ (p.target.rank < q.target.rank ∨ p.SameGroup q) := by
    intro before q hlow p hp
    refine ⟨fun heq => ?_, .inl (rank_lt_of_level (hlow p hp))⟩
    have hlt := hlow p hp
    rw [heq] at hlt
    exact lt_irrefl _ hlt
  show Checked world [] ([lock (.user u) .noKeyUpdate] ++ (_ ++ _))
  rw [checked_append, List.nil_append, checked_append]
  refine ⟨checked_upsertUser 0 u .found, checked_map ?_ ?_ ?_ ?_, checked_map ?_ ?_ ?_ ?_⟩
  · refine (List.nodup_map_iff_inj_on hsessions).mpr (fun d _ d' _ heq => ?_)
    injection heq
  · exact fun s _ => hbelow _ _ hfirst
  · exact fun s _ s' _ => .inl ⟨s, s', rfl, rfl⟩
  · intro s hs
    refine ⟨rfl, ?_⟩
    rw [howner s hs]
    exact List.mem_cons_self
  · have hcomp : (deposits.map (fun d => LockTarget.deposit d.1)) =
        (deposits.map Prod.fst).map LockTarget.deposit := by
      rw [List.map_map]
      rfl
    show (deposits.map (fun d => LockTarget.deposit d.1)).Nodup
    rw [hcomp]
    refine (List.nodup_map_iff_inj_on hdeposits).mpr (fun d _ d' _ heq => ?_)
    injection heq
  · exact fun d _ => hbelow _ _ hsecond
  · exact fun d _ d' _ => .inr ⟨⟨d.1, rfl, .inr ⟨rfl, by simp⟩⟩, ⟨d'.1, rfl, .inr ⟨rfl, by simp⟩⟩⟩
  · intro d hd
    refine .inr (.inl ⟨rfl, d.2, rfl, (htrader d hd).2, ?_⟩)
    rw [(htrader d hd).1]
    simp

/-- **Every transaction asks in the order.** -/
theorem script_checked {world : LockWorld} {kind : TxKind} (h : kind.Valid world) :
    Checked world [] (kind.script world) := by
  cases kind with
  | linkBrokerAccount t u user inviter a account activate deposits linkBonus reward =>
    exact checked_link t user activate linkBonus reward h
  | confirmBrokerAccount u inviter a deposits linkBonus reward => exact checked_confirm linkBonus reward h
  | recordUserStart t u created inviter => exact checked_start world t u created inviter
  | recordPostback account payment recorded owner postback journaled deposit =>
    exact checked_postback world account payment recorded owner postback journaled deposit
  | setTradingMode u sessions deposits => exact checked_mode h
  | switchTradingModeOnDeposit u deposit account =>
    obtain ⟨howner, htrader⟩ := h
    refine ⟨requestOk_low trivial (by simp) (low_nil _),
      requestOk_again none trivial (by simp [lock]),
      requestOk_of_low ?_ (.inr (.inl ⟨rfl, account, rfl, htrader, ?_⟩)), trivial⟩
    · simp [Low, lock, LockTarget.level]
    · rw [howner]
      simp
  | markDepositModeSwitch deposit =>
    exact ⟨requestOk_of_low (low_nil _) (.inl ⟨rfl, .inr ⟨rfl, rfl⟩⟩), trivial⟩
  | createTradingSession u a =>
    refine ⟨requestOk_low trivial (by simp) (low_nil _), requestOk_low trivial (by simp) ?_,
      requestOk_low trivial (by simp) ?_, requestOk_free trivial, trivial⟩
    · simp [Low, lock, LockTarget.level]
    · simp [Low, lock, LockTarget.level]
  | creditStarPayment u charge payment entry recorded =>
    cases recorded with
    | true =>
      refine ⟨requestOk_low trivial (by simp) (low_nil _), requestOk_low trivial (by simp) ?_,
        requestOk_free trivial, requestOk_low trivial (by simp) ?_, requestOk_free trivial,
        requestOk_free trivial, requestOk_again none trivial (by simp [lock]), trivial⟩
      · simp [Low, lock, LockTarget.level]
      · simp [Low, lock, LockTarget.level]
    | false =>
      refine ⟨requestOk_low trivial (by simp) (low_nil _), requestOk_low trivial (by simp) ?_, trivial⟩
      simp [Low, lock, LockTarget.level]
  | recordStarRefund u payment entry =>
    refine ⟨requestOk_low trivial (by simp) (low_nil _), requestOk_low trivial (by simp) ?_,
      requestOk_low trivial (by simp) ?_, requestOk_free trivial, requestOk_free trivial,
      requestOk_again none trivial (by simp [lock]),
      requestOk_again none trivial (by simp [lock]), trivial⟩
    · simp [Low, lock, LockTarget.level]
    · simp [Low, lock, LockTarget.level]

/-! ### The requests that end their transaction -/

def NoTerminal (xs : List LockRequest) : Prop := ∀ q ∈ xs, ¬ q.Terminal

theorem noTerminal_append {xs ys : List LockRequest} (hx : NoTerminal xs) (hy : NoTerminal ys) :
    NoTerminal (xs ++ ys) := by
  intro q hq
  rcases List.mem_append.mp hq with hq | hq
  · exact hx q hq
  · exact hy q hq

theorem Low.noTerminal {xs : List LockRequest} (h : Low xs 7) : NoTerminal xs := by
  intro q hq hterminal
  have hlt := h q hq
  rw [hterminal.1] at hlt
  exact lt_irrefl _ hlt

theorem noTerminal_bonus {key reference : LockTarget} {payee : ℕ} (path : BonusPath)
    (hkey : key.level ≠ 7) (hreference : reference.level ≠ 7) :
    NoTerminal (bonusLocks key reference payee path) := by
  have hcons : ∀ (q : LockRequest) (xs : List LockRequest), q.target.level ≠ 7 → NoTerminal xs →
      NoTerminal (q :: xs) := by
    intro q xs hlevel hxs p hp
    rcases List.mem_cons.mp hp with rfl | hp
    · exact fun hterminal => hlevel hterminal.1
    · exact hxs p hp
  have hnil : NoTerminal [] := fun q hq => by cases hq
  have huser : (LockTarget.user payee).level ≠ 7 := by simp [LockTarget.level]
  cases path with
  | skipped => exact hnil
  | already => exact hcons _ _ hkey hnil
  | granted rule =>
    exact hcons _ _ hkey (hcons _ _ huser (hcons _ _ hreference (hcons _ _ (by simp [lock, LockTarget.level])
      (hcons _ _ huser hnil))))

theorem noTerminal_reward (u : ℕ) (inviter : Option ℕ) (path : BonusPath) :
    NoTerminal (rewardLocks u path inviter) := by
  cases inviter with
  | none => exact fun q hq => by cases hq
  | some i => exact noTerminal_bonus path (by simp [LockTarget.level]) (by simp [LockTarget.level])

theorem noTerminal_activation (u a : ℕ) (inviter : Option ℕ) (deposits : List ℕ)
    (linkBonus reward : BonusPath) :
    NoTerminal (activationLocks u a inviter deposits linkBonus reward) := by
  unfold activationLocks attachLocks
  refine noTerminal_append (noTerminal_append ?_ ?_) (noTerminal_append
    (noTerminal_bonus linkBonus (by simp [LockTarget.level]) (by simp [LockTarget.level]))
    (noTerminal_reward u inviter reward))
  · intro q hq
    obtain ⟨d, -, rfl⟩ := List.mem_map.mp hq
    simp [LockRequest.Terminal, lock]
  · simp [NoTerminal, LockRequest.Terminal, lock, LockTarget.level]

theorem noTerminal_account (world : LockWorld) (u a : ℕ) (path : AccountPath) :
    NoTerminal (TxKind.accountLocks world u a path) := by
  cases path <;> simp [TxKind.accountLocks, NoTerminal, LockRequest.Terminal, lock, LockTarget.level]

/-- Behind its last request nothing comes. -/
theorem rest_of_noTerminal {xs done rest : List LockRequest} {x q : LockRequest} (h : NoTerminal xs)
    (hsplit : xs ++ [x] = done ++ q :: rest) (hq : q.Terminal) : rest = [] := by
  rcases List.eq_nil_or_concat rest with hrest | ⟨rest', y, hrest⟩
  · exact hrest
  · subst hrest
    have hsplit' : xs ++ [x] = (done ++ q :: rest') ++ [y] := by
      rw [hsplit]
      simp
    obtain ⟨hsame, -⟩ := List.append_inj' hsplit' rfl
    refine absurd hq (h q ?_)
    rw [hsame]
    simp

theorem script_terminal {world : LockWorld} {kind : TxKind} {done rest : List LockRequest}
    {q : LockRequest} (hsplit : kind.script world = done ++ q :: rest) (hq : q.Terminal) : rest = [] := by
  have hnone : NoTerminal (kind.script world) → rest = [] := by
    intro h
    refine absurd hq (h q ?_)
    rw [hsplit]
    simp
  cases kind with
  | linkBrokerAccount t u user inviter a account activate deposits linkBonus reward =>
    refine hnone (noTerminal_append ((low_upsertUser t u user).mono (by omega)).noTerminal
      (noTerminal_append ((low_inviter inviter).mono (by omega)).noTerminal
        (noTerminal_append (noTerminal_account world u a account) ?_)))
    split_ifs
    · exact fun q hq => by cases hq
    · exact noTerminal_activation u a inviter deposits linkBonus reward
    · exact noTerminal_reward u inviter reward
  | confirmBrokerAccount u inviter a deposits linkBonus reward =>
    refine hnone ?_
    show NoTerminal ([lock (.user u) .noKeyUpdate] ++ (inviterLocks inviter ++
      ([⟨.account a, .noKeyUpdate, some a⟩, lock (.account a) .noKeyUpdate] ++ _)))
    refine noTerminal_append ((low_upsertUser 0 u .found).mono (by omega)).noTerminal
      (noTerminal_append ((low_inviter inviter).mono (by omega)).noTerminal
        (noTerminal_append ?_ (noTerminal_activation u a inviter deposits linkBonus reward)))
    simp [NoTerminal, LockRequest.Terminal, lock, LockTarget.level]
  | recordUserStart t u created inviter =>
    refine hnone (Low.noTerminal ?_)
    cases inviter <;> simp [TxKind.script, Low, lock, LockTarget.level]
  | recordPostback account payment recorded owner postback journaled deposit =>
    have hfirst : Low (TxKind.sharedAccountLocks account) 7 := by
      cases account <;> simp [TxKind.sharedAccountLocks, Low, LockTarget.level]
    refine rest_of_noTerminal (noTerminal_append hfirst.noTerminal (noTerminal_append
      ((low_deposit payment recorded owner).mono (by omega)).noTerminal ?_)) hsplit hq
    simp [NoTerminal, LockRequest.Terminal, lock, LockTarget.level]
  | setTradingMode u sessions deposits =>
    refine hnone ?_
    show NoTerminal ([lock (.user u) .noKeyUpdate] ++ (_ ++ _))
    refine noTerminal_append ((low_upsertUser 0 u .found).mono (by omega)).noTerminal
      (noTerminal_append ?_ ?_)
    · intro q hq
      obtain ⟨s, -, rfl⟩ := List.mem_map.mp hq
      simp [LockRequest.Terminal, lock, LockTarget.level]
    · intro q hq
      obtain ⟨d, -, rfl⟩ := List.mem_map.mp hq
      simp [LockRequest.Terminal]
  | switchTradingModeOnDeposit u deposit account =>
    exact hnone (by simp [TxKind.script, NoTerminal, LockRequest.Terminal, lock, LockTarget.level])
  | markDepositModeSwitch deposit =>
    have hempty : NoTerminal [] := fun q hq => by cases hq
    exact rest_of_noTerminal hempty hsplit hq
  | createTradingSession u a =>
    exact hnone (Low.noTerminal (by simp [TxKind.script, Low, lock, LockTarget.level]))
  | creditStarPayment u charge payment entry recorded =>
    refine hnone ?_
    cases recorded <;> simp [TxKind.script, NoTerminal, LockRequest.Terminal, lock, LockTarget.level]
  | recordStarRefund u payment entry =>
    exact hnone (by simp [TxKind.script, NoTerminal, LockRequest.Terminal, lock, LockTarget.level])

namespace LockTable

/-! ### The invariant -/

variable {world : LockWorld} {s : LockTable}

structure Inv (world : LockWorld) (s : LockTable) : Prop where
  script : ∀ (i : ℕ) (t : LockTx), s.txs[i]? = some t → t.ended = false →
    t.kind.Valid world ∧ t.done ++ t.rest = t.kind.script world
  compat : ∀ i j p q, i ≠ j → s.Holds i p → s.Holds j q → p.mode ≠ .meet → q.mode ≠ .meet →
    p.blocks q = false
  seen : ∀ i p a, s.Holds i p → p.mode ≠ .insert → p.account = some a →
    s.accounts (world.trader a) = some a
  fresh : ∀ i p b, s.Holds i p → p.mode = .insert → p.target = .brokerUserId b → s.accounts b = none
  waits : ∀ i q moment, s.Waits i q moment → ¬ q.Free ∧ (∀ p, s.Holds i p → ¬ p.Covers q) ∧
    (q.mode ≠ .insert → ∀ a, q.account = some a → s.accounts (world.trader a) = some a)

theorem Inv.start : Inv world LockTable.start where
  script i t h := by simp [LockTable.start] at h
  compat i j p q _ h := by
    obtain ⟨t, ht, -⟩ := h
    simp [LockTable.start] at ht
  seen i p a h := by
    obtain ⟨t, ht, -⟩ := h
    simp [LockTable.start] at ht
  fresh i p b h := by
    obtain ⟨t, ht, -⟩ := h
    simp [LockTable.start] at ht
  waits i q moment h := by
    obtain ⟨t, ht, -⟩ := h
    simp [LockTable.start] at ht

theorem blocks_iff {p q : LockRequest} :
    p.blocks q = true ↔ p.target = q.target ∧ p.mode.conflicts q.mode = true := by
  unfold LockRequest.blocks
  rw [Bool.and_eq_true, decide_eq_true_eq]

theorem contended_eq_false {index : ℕ} {q : LockRequest} (h : s.contended index q = false) :
    ∀ j p, j ≠ index → s.Holds j p → p.blocks q = false := by
  rintro j p hne ⟨t, ht, hended, hmem⟩
  unfold contended at h
  rw [List.any_eq_false] at h
  obtain ⟨hlt, -⟩ := List.getElem?_eq_some_iff.mp ht
  have hj := h j (List.mem_range.mpr hlt)
  simp only [ht, hended, hne, ne_eq, not_false_eq_true, decide_true, Bool.not_false, Bool.true_and,
    List.any_eq_true, not_exists, not_and] at hj
  simpa using hj p hmem

theorem contended_eq_true {index : ℕ} {q : LockRequest} (h : s.contended index q = true) :
    ∃ j p, j ≠ index ∧ s.Holds j p ∧ p.blocks q = true := by
  unfold contended at h
  obtain ⟨j, -, hj⟩ := List.any_eq_true.mp h
  obtain ⟨hne, hheld⟩ := Bool.and_eq_true_iff.mp hj
  cases ht : s.txs[j]? with
  | none =>
    rw [ht] at hheld
    cases hheld
  | some t =>
    rw [ht] at hheld
    obtain ⟨hended, hany⟩ := Bool.and_eq_true_iff.mp hheld
    obtain ⟨p, hp, hblocks⟩ := List.any_eq_true.mp hany
    exact ⟨j, p, of_decide_eq_true hne, ⟨t, ht, by simpa using hended, hp⟩, hblocks⟩

/-- An update is of a deposit. -/
theorem level_of_update {before : List LockRequest} {q : LockRequest} (h : Guarded world before q)
    (hmode : q.mode = .update) : q.target.level = 7 := by
  unfold Guarded at h
  cases htarget : q.target with
  | deposit d => rfl
  | session s =>
    rw [htarget] at h
    rw [hmode] at h
    cases h.1
  | brokerUserId b =>
    rw [htarget] at h
    exact absurd hmode h.1
  | _ =>
    rw [htarget] at h
    exact absurd hmode h

/-- A held lock is in its place in its script. -/
theorem Inv.held_ok (h : Inv world s) {i : ℕ} {p : LockRequest} (hp : s.Holds i p) :
    ∃ before, (∀ q ∈ before, s.Holds i q) ∧ RequestOk world before p := by
  obtain ⟨t, ht, hended, hmem⟩ := hp
  obtain ⟨hvalid, hscript⟩ := h.script i t ht hended
  obtain ⟨before, after, hsplit⟩ := List.append_of_mem hmem
  refine ⟨before, fun q hq => ⟨t, ht, hended, ?_⟩, ?_⟩
  · rw [hsplit]
    exact List.mem_append.mpr (.inl hq)
  · have hchecked := script_checked hvalid
    have hok := @checked_split world [] _ before (after ++ t.rest) p hchecked (by rw [← hscript, hsplit]; simp)
    rwa [List.nil_append] at hok

/-- So is an awaited one, behind all its transaction holds. -/
theorem Inv.awaited_ok (h : Inv world s) {i moment : ℕ} {q : LockRequest} (hq : s.Waits i q moment) :
    ∃ before, (∀ p, p ∈ before ↔ s.Holds i p) ∧ RequestOk world before q := by
  obtain ⟨t, ht, hended, -, hhead⟩ := hq
  obtain ⟨hvalid, hscript⟩ := h.script i t ht hended
  cases hrest : t.rest with
  | nil =>
    rw [hrest] at hhead
    cases hhead
  | cons q' rest =>
    rw [hrest, List.head?_cons] at hhead
    injection hhead with hhead
    subst hhead
    refine ⟨t.done, fun p => ⟨fun hp => ⟨t, ht, hended, hp⟩, ?_⟩, ?_⟩
    · rintro ⟨t', ht', -, hp⟩
      rw [ht] at ht'
      injection ht' with ht'
      subst ht'
      exact hp
    · have hok := checked_split (script_checked hvalid) (by rw [← hscript, hrest])
      rwa [List.nil_append] at hok

/-! ### Who stands behind the rows of a statement -/

theorem not_terminal_of_writer {q : LockRequest} (h : q.Writer) : ¬ q.Terminal := by
  obtain ⟨d, -, hmode⟩ := h
  rintro ⟨-, hshare | ⟨hkey, hnone⟩⟩
  · rcases hmode with hmode | hmode
    · rw [hshare] at hmode
      cases hmode
    · rw [hshare] at hmode
      cases hmode.1
  · rcases hmode with hmode | hmode
    · rw [hkey] at hmode
      cases hmode
    · exact hmode.2 hnone

/-- The trader's account is committed, or this transaction inserted it; its owner's row is held. -/
def Behind (world : LockWorld) (s : LockTable) (i d : ℕ) : Prop :=
  ∃ a, world.trader a = world.depositTrader d ∧ s.Holds i (lock (.user (world.owner a)) .noKeyUpdate) ∧
    (s.accounts (world.trader a) = some a ∨
      s.Holds i ⟨.brokerUserId (world.trader a), .insert, some a⟩)

theorem Inv.behind (h : Inv world s) {i d : ℕ} {q : LockRequest} {before : List LockRequest}
    (hbefore : ∀ p ∈ before, s.Holds i p) (hguard : Guarded world before q) (htarget : q.target = .deposit d)
    (hwriter : q.Writer)
    (hseen : q.mode ≠ .insert → ∀ a, q.account = some a → s.accounts (world.trader a) = some a) :
    Behind world s i d := by
  unfold Guarded at hguard
  rw [htarget] at hguard
  rcases hguard with hterminal | ⟨hmode, a, haccount, htrader, huser⟩ | ⟨-, a, htrader, huser, hheld⟩
  · exact absurd hterminal (not_terminal_of_writer hwriter)
  · exact ⟨a, htrader, hbefore _ huser, .inl (hseen (by rw [hmode]; decide) a haccount)⟩
  · refine ⟨a, htrader, hbefore _ huser, ?_⟩
    rcases hheld with hinserted | hlocked
    · exact .inr (hbefore _ hinserted)
    · exact .inl (h.seen i _ a (hbefore _ hlocked) (by simp) rfl)

/-- **Two transactions are never behind one deposit.** -/
theorem Inv.behind_same (h : Inv world s) {i j d : ℕ} (hi : Behind world s i d) (hj : Behind world s j d) :
    i = j := by
  obtain ⟨a, hatrader, hauser, ha⟩ := hi
  obtain ⟨b, hbtrader, hbuser, hb⟩ := hj
  have htrader : world.trader a = world.trader b := hatrader.trans hbtrader.symm
  by_contra hne
  rcases ha with ha | ha
  · rcases hb with hb | hb
    · -- both accounts are the committed one: its owner's row has one holder
      rw [htrader, hb] at ha
      injection ha with ha
      rw [ha] at hbuser
      have hno := h.compat i j _ _ hne hauser hbuser (by simp [lock]) (by simp [lock])
      simp [LockRequest.blocks, lock, RowLockMode.conflicts] at hno
    · have hnone := h.fresh j _ (world.trader b) hb rfl rfl
      rw [← htrader, ha] at hnone
      cases hnone
  · rcases hb with hb | hb
    · have hnone := h.fresh i _ (world.trader a) ha rfl rfl
      rw [htrader, hb] at hnone
      cases hnone
    · have hno := h.compat i j _ _ hne ha hb (by simp) (by simp)
      simp [LockRequest.blocks, RowLockMode.conflicts, htrader] at hno

theorem Inv.behind_waits (h : Inv world s) {i d moment : ℕ} {q : LockRequest} (hq : s.Waits i q moment)
    (htarget : q.target = .deposit d) (hwriter : q.Writer) : Behind world s i d := by
  obtain ⟨before, hbefore, hok⟩ := h.awaited_ok hq
  exact h.behind (fun p hp => (hbefore p).mp hp) hok.guard htarget hwriter (h.waits i q moment hq).2.2

theorem Inv.behind_holds (h : Inv world s) {i d : ℕ} {p : LockRequest} (hp : s.Holds i p)
    (htarget : p.target = .deposit d) (hwriter : p.Writer) : Behind world s i d := by
  obtain ⟨before, hbefore, hok⟩ := h.held_ok hp
  exact h.behind hbefore hok.guard htarget hwriter (fun hmode a ha => h.seen i p a hp hmode ha)

/-- What is awaited comes after what is held. -/
theorem Inv.awaited_after (h : Inv world s) {i moment : ℕ} {p q : LockRequest} (hq : s.Waits i q moment)
    (hp : s.Holds i p) : p.target ≠ q.target ∧ (p.target.rank < q.target.rank ∨ p.SameGroup q) := by
  obtain ⟨hfree, hcovers, -⟩ := h.waits i q moment hq
  obtain ⟨before, hbefore, hok⟩ := h.awaited_ok hq
  rcases hok.order with hfree' | ⟨p', hp', hcovers'⟩ | hafter
  · exact absurd hfree' hfree
  · exact absurd hcovers' (hcovers p' ((hbefore p').mp hp'))
  · exact hafter p ((hbefore p).mpr hp)

/-- A session's rows are behind its owner's. -/
theorem session_owner {before : List LockRequest} {q : LockRequest} {session : ℕ}
    (h : Guarded world before q) (htarget : q.target = .session session) :
    lock (.user (world.sessionOwner session)) .noKeyUpdate ∈ before := by
  unfold Guarded at h
  rw [htarget] at h
  exact h.2

theorem Inv.session_same (h : Inv world s) {i j session moment : ℕ} {p q : LockRequest}
    (hq : s.Waits i q moment) (hp : s.Holds j p) (hqtarget : q.target = .session session)
    (hptarget : p.target = .session session) : i = j := by
  by_contra hne
  obtain ⟨before, hbefore, hok⟩ := h.awaited_ok hq
  obtain ⟨before', hbefore', hok'⟩ := h.held_ok hp
  have huser := (hbefore _).mp (session_owner hok.guard hqtarget)
  have huser' := hbefore' _ (session_owner hok'.guard hptarget)
  have hno := h.compat i j _ _ hne huser huser' (by simp [lock]) (by simp [lock])
  simp [LockRequest.blocks, lock, RowLockMode.conflicts] at hno

/-! ### The measure of a wait -/

open Classical in
/-- The awaited target's place, whether a statement over several rows holds it, and since when. -/
noncomputable def waitMeasure (s : LockTable) (i : ℕ) : (ℕ ×ₗ ℤ) ×ₗ (ℕ ×ₗ ℤ) :=
  match s.txs[i]? with
  | some t =>
    match t.rest.head?, t.waiting with
    | some q, some moment =>
      toLex (q.target.rank,
        toLex (if ∃ j p, j ≠ i ∧ s.Holds j p ∧ p.Writer ∧ p.target = q.target then 0 else 1, -(moment : ℤ)))
    | _, _ => toLex (toLex (0, 0), toLex (0, 0))
  | none => toLex (toLex (0, 0), toLex (0, 0))

open Classical in
theorem waitMeasure_eq {i moment : ℕ} {q : LockRequest} (hq : s.Waits i q moment) :
    s.waitMeasure i = toLex (q.target.rank,
      toLex (if ∃ j p, j ≠ i ∧ s.Holds j p ∧ p.Writer ∧ p.target = q.target then 0 else 1, -(moment : ℤ))) := by
  obtain ⟨t, ht, -, hwaiting, hhead⟩ := hq
  unfold waitMeasure
  simp only [ht, hwaiting, hhead]

theorem waits_unique {i m m' : ℕ} {q q' : LockRequest} (h : s.Waits i q m) (h' : s.Waits i q' m') :
    q = q' ∧ m = m' := by
  obtain ⟨t, ht, -, hm, hq⟩ := h
  obtain ⟨t', ht', -, hm', hq'⟩ := h'
  rw [ht] at ht'
  injection ht' with ht'
  subst ht'
  rw [hm] at hm'
  rw [hq] at hq'
  injection hm' with hm'
  injection hq' with hq'
  exact ⟨hq', hm'⟩

/-- **The measure grows** from a waiter to a waiter it waits for. -/
theorem Inv.measure_lt (h : Inv world s) {i j k : ℕ} (hij : s.WaitsFor i j) (hjk : s.WaitsFor j k) :
    s.waitMeasure i < s.waitMeasure j := by
  obtain ⟨hne, q, moment, hq, hwhy⟩ := hij
  obtain ⟨-, q', moment', hq', -⟩ := hjk
  rw [waitMeasure_eq hq, waitMeasure_eq hq', Prod.Lex.toLex_lt_toLex]
  rcases hwhy with ⟨p, hp, hblocks⟩ | ⟨q'', moment'', hq'', hearlier, hblocks⟩
  · obtain ⟨htarget, -⟩ := blocks_iff.mp hblocks
    rcases (h.awaited_after hq' hp).2 with hrank | ⟨session, session', hp', -⟩ | ⟨hpwriter, hqwriter⟩
    · rw [htarget] at hrank
      exact .inl hrank
    · exact absurd (h.session_same hq hp (htarget ▸ hp') hp') hne
    · -- a statement over deposits: it is behind the rows it holds, and behind those it awaits
      have hpwriter' := hpwriter
      have hqwriter' := hqwriter
      obtain ⟨d, hd, -⟩ := hpwriter'
      obtain ⟨d', hd', -⟩ := hqwriter'
      refine .inr ⟨?_, ?_⟩
      · rw [← htarget, hd, hd']
        rfl
      · have hheld : ∃ j p, j ≠ i ∧ s.Holds j p ∧ p.Writer ∧ p.target = q.target :=
          ⟨j, p, fun heq => hne heq.symm, hp, hpwriter, htarget⟩
        have hfree : ¬ ∃ k p, k ≠ j ∧ s.Holds k p ∧ p.Writer ∧ p.target = q'.target := by
          rintro ⟨k, p', hk, hp', hwriter', htarget'⟩
          exact hk (h.behind_same (h.behind_holds hp' (htarget'.trans hd') hwriter')
            (h.behind_waits hq' hd' hqwriter))
        rw [if_pos hheld, if_neg hfree, Prod.Lex.toLex_lt_toLex]
        exact .inl Nat.zero_lt_one
  · obtain ⟨rfl, rfl⟩ := waits_unique hq' hq''
    obtain ⟨htarget, -⟩ := blocks_iff.mp hblocks
    refine .inr ⟨by rw [htarget], ?_⟩
    have hiff : (∃ k p, k ≠ i ∧ s.Holds k p ∧ p.Writer ∧ p.target = q.target) ↔
        ∃ k p, k ≠ j ∧ s.Holds k p ∧ p.Writer ∧ p.target = q'.target := by
      constructor
      · rintro ⟨k, p, -, hp, hwriter, hptarget⟩
        refine ⟨k, p, ?_, hp, hwriter, hptarget.trans htarget.symm⟩
        rintro rfl
        exact (h.awaited_after hq' hp).1 (hptarget.trans htarget.symm)
      · rintro ⟨k, p, -, hp, hwriter, hptarget⟩
        refine ⟨k, p, ?_, hp, hwriter, hptarget.trans htarget⟩
        rintro rfl
        exact (h.awaited_after hq hp).1 (hptarget.trans htarget)
    rw [Prod.Lex.toLex_lt_toLex]
    refine .inr ⟨?_, ?_⟩
    · by_cases hheld : ∃ k p, k ≠ i ∧ s.Holds k p ∧ p.Writer ∧ p.target = q.target
      · rw [if_pos hheld, if_pos (hiff.mp hheld)]
      · rw [if_neg hheld, if_neg (fun hother => hheld (hiff.mpr hother))]
    show -(moment : ℤ) < -(moment' : ℤ)
    omega

/-! ### One event -/

theorem conflicts_symm {a b : RowLockMode} (ha : a ≠ .meet) (hb : b ≠ .meet) : a.conflicts b = b.conflicts a := by
  cases a <;> cases b <;> first | rfl | exact absurd rfl ha | exact absurd rfl hb

theorem blocks_symm {p q : LockRequest} (hp : p.mode ≠ .meet) (hq : q.mode ≠ .meet) :
    p.blocks q = q.blocks p := by
  unfold LockRequest.blocks
  rw [conflicts_symm hp hq, decide_eq_decide.mpr eq_comm]

section Change

variable {s' : LockTable} {index : ℕ} {t t' : LockTx}

theorem holds_set (ht : s.txs[index]? = some t) (hs' : s'.txs = s.txs.set index t') {i : ℕ}
    {p : LockRequest} (h : s'.Holds i p) :
    (i = index ∧ t'.ended = false ∧ p ∈ t'.done) ∨ (i ≠ index ∧ s.Holds i p) := by
  obtain ⟨u, hu, hended, hp⟩ := h
  rw [hs', List.getElem?_set] at hu
  obtain ⟨hlt, -⟩ := List.getElem?_eq_some_iff.mp ht
  by_cases hindex : index = i
  · rw [if_pos hindex, if_pos hlt] at hu
    injection hu with hu
    subst hu
    exact .inl ⟨hindex.symm, hended, hp⟩
  · rw [if_neg hindex] at hu
    exact .inr ⟨fun heq => hindex heq.symm, u, hu, hended, hp⟩

theorem waits_set (ht : s.txs[index]? = some t) (hs' : s'.txs = s.txs.set index t') {i moment : ℕ}
    {q : LockRequest} (h : s'.Waits i q moment) :
    (i = index ∧ t'.ended = false ∧ t'.waiting = some moment ∧ t'.rest.head? = some q) ∨
      (i ≠ index ∧ s.Waits i q moment) := by
  obtain ⟨u, hu, hended, hmoment, hq⟩ := h
  rw [hs', List.getElem?_set] at hu
  obtain ⟨hlt, -⟩ := List.getElem?_eq_some_iff.mp ht
  by_cases hindex : index = i
  · rw [if_pos hindex, if_pos hlt] at hu
    injection hu with hu
    subst hu
    exact .inl ⟨hindex.symm, hended, hmoment, hq⟩
  · rw [if_neg hindex] at hu
    exact .inr ⟨fun heq => hindex heq.symm, u, hu, hended, hmoment, hq⟩

theorem script_set (h : Inv world s) (ht : s.txs[index]? = some t) (hs' : s'.txs = s.txs.set index t')
    (hscript : t'.ended = false → t'.kind.Valid world ∧ t'.done ++ t'.rest = t'.kind.script world) :
    ∀ (i : ℕ) (u : LockTx), s'.txs[i]? = some u → u.ended = false →
      u.kind.Valid world ∧ u.done ++ u.rest = u.kind.script world := by
  intro i u hu hended
  rw [hs', List.getElem?_set] at hu
  obtain ⟨hlt, -⟩ := List.getElem?_eq_some_iff.mp ht
  by_cases hindex : index = i
  · rw [if_pos hindex, if_pos hlt] at hu
    injection hu with hu
    subst hu
    exact hscript hended
  · rw [if_neg hindex] at hu
    exact h.script i u hu hended

/-- A transaction ends: what it inserted may be committed. -/
theorem Inv.finish (h : Inv world s) (ht : s.txs[index]? = some t) (hs' : s'.txs = s.txs.set index t')
    (hended : t'.ended = true)
    (haccounts : ∀ b, s'.accounts b = s.accounts b ∨
      ∃ p, s.Holds index p ∧ p.mode = .insert ∧ p.target = .brokerUserId b) : Inv world s' := by
  have hholds : ∀ i p, s'.Holds i p → i ≠ index ∧ s.Holds i p := by
    intro i p hp
    rcases holds_set ht hs' hp with ⟨-, hnot, -⟩ | hother
    · rw [hended] at hnot
      cases hnot
    · exact hother
  have hwaits : ∀ i q moment, s'.Waits i q moment → i ≠ index ∧ s.Waits i q moment := by
    intro i q moment hq
    rcases waits_set ht hs' hq with ⟨-, hnot, -⟩ | hother
    · rw [hended] at hnot
      cases hnot
    · exact hother
  -- a committed account keeps its key
  have hkept : ∀ a, s.accounts (world.trader a) = some a → s'.accounts (world.trader a) = some a := by
    intro a ha
    rcases haccounts (world.trader a) with heq | ⟨p, hp, hmode, htarget⟩
    · rw [heq]
      exact ha
    · have hnone := h.fresh index p _ hp hmode htarget
      rw [ha] at hnone
      cases hnone
  refine ⟨script_set h ht hs' (fun hnot => ?_), fun i j p q hne hp hq => ?_, fun i p a hp hmode ha => ?_,
    fun i p b hp hmode htarget => ?_, fun i q moment hq => ?_⟩
  · rw [hended] at hnot
    cases hnot
  · exact h.compat i j p q hne (hholds i p hp).2 (hholds j q hq).2
  · exact hkept a (h.seen i p a (hholds i p hp).2 hmode ha)
  · obtain ⟨hne, hp'⟩ := hholds i p hp
    rcases haccounts b with heq | ⟨p', hp'', hmode', htarget'⟩
    · rw [heq]
      exact h.fresh i p b hp' hmode htarget
    · have hno := h.compat i index p p' hne hp' hp'' (by rw [hmode]; decide) (by rw [hmode']; decide)
      simp [LockRequest.blocks, hmode, hmode', htarget, htarget', RowLockMode.conflicts] at hno
  · obtain ⟨hne, hq'⟩ := hwaits i q moment hq
    obtain ⟨hfree, hcovers, hseen⟩ := h.waits i q moment hq'
    exact ⟨hfree, fun p hp => hcovers p (hholds i p hp).2, fun hmode a ha => hkept a (hseen hmode a ha)⟩

/-- What a transaction is told is free, and is there. -/
structure Granted (world : LockWorld) (s : LockTable) (index : ℕ) (q : LockRequest) : Prop where
  alone : ∀ j p, j ≠ index → s.Holds j p → p.blocks q = false
  seen : q.mode ≠ .insert → ∀ a, q.account = some a → s.accounts (world.trader a) = some a
  fresh : q.mode = .insert → ∀ b, q.target = .brokerUserId b → s.accounts b = none

/-- **A transaction goes on**, with at most what it was granted. -/
theorem Inv.goOn (h : Inv world s) (ht : s.txs[index]? = some t) (hs' : s'.txs = s.txs.set index t')
    (hsame : s'.accounts = s.accounts)
    (hscript : t'.kind.Valid world ∧ t'.done ++ t'.rest = t'.kind.script world)
    (hdone : ∀ p ∈ t'.done, s.Holds index p ∨ Granted world s index p)
    (hwaiting : ∀ q moment, t'.waiting = some moment → t'.rest.head? = some q → ¬ q.Free ∧
      (∀ p ∈ t'.done, ¬ p.Covers q) ∧
        (q.mode ≠ .insert → ∀ a, q.account = some a → s.accounts (world.trader a) = some a)) :
    Inv world s' := by
  have hholds : ∀ i p, s'.Holds i p → (i = index ∧ (s.Holds index p ∨ Granted world s index p)) ∨
      (i ≠ index ∧ s.Holds i p) := by
    intro i p hp
    rcases holds_set ht hs' hp with ⟨hi, -, hmem⟩ | hother
    · exact .inl ⟨hi, hdone p hmem⟩
    · exact .inr hother
  refine ⟨script_set h ht hs' (fun _ => hscript), fun i j p q hne hp hq hpmeet hqmeet => ?_,
    fun i p a hp hmode ha => ?_, fun i p b hp hmode htarget => ?_, fun i q moment hq => ?_⟩
  · rcases hholds i p hp with ⟨rfl, hp'⟩ | ⟨hi, hp'⟩
    · rcases hholds j q hq with ⟨hj, -⟩ | ⟨hj, hq'⟩
      · exact absurd hj.symm hne
      · rcases hp' with hp' | hgranted
        · exact h.compat i j p q hne hp' hq' hpmeet hqmeet
        · rw [blocks_symm hpmeet hqmeet]
          exact hgranted.alone j q hj hq'
    · rcases hholds j q hq with ⟨rfl, hq'⟩ | ⟨-, hq'⟩
      · rcases hq' with hq' | hgranted
        · exact h.compat i j p q hne hp' hq' hpmeet hqmeet
        · exact hgranted.alone i p hi hp'
      · exact h.compat i j p q hne hp' hq' hpmeet hqmeet
  · rw [hsame]
    rcases hholds i p hp with ⟨-, hp' | hgranted⟩ | ⟨-, hp'⟩
    · exact h.seen index p a hp' hmode ha
    · exact hgranted.seen hmode a ha
    · exact h.seen i p a hp' hmode ha
  · rw [hsame]
    rcases hholds i p hp with ⟨-, hp' | hgranted⟩ | ⟨-, hp'⟩
    · exact h.fresh index p b hp' hmode htarget
    · exact hgranted.fresh hmode b htarget
    · exact h.fresh i p b hp' hmode htarget
  · rw [hsame]
    rcases waits_set ht hs' hq with ⟨rfl, -, hmoment, hhead⟩ | ⟨hi, hq'⟩
    · obtain ⟨hfree, hcovers, hseen⟩ := hwaiting q moment hmoment hhead
      refine ⟨hfree, fun p hp => ?_, hseen⟩
      rcases holds_set ht hs' hp with ⟨-, -, hmem⟩ | ⟨hnot, -⟩
      · exact hcovers p hmem
      · exact absurd rfl hnot
    · obtain ⟨hfree, hcovers, hseen⟩ := h.waits i q moment hq'
      refine ⟨hfree, fun p hp => ?_, hseen⟩
      rcases holds_set ht hs' hp with ⟨hi', -⟩ | ⟨-, hp'⟩
      · exact absurd hi' hi
      · exact hcovers p hp'

end Change

theorem ready_seen {q : LockRequest} (h : s.Ready world q) :
    (q.mode ≠ .insert → ∀ a, q.account = some a → s.accounts (world.trader a) = some a) ∧
      (q.mode = .insert → ∀ b, q.target = .brokerUserId b → s.accounts b = none) := by
  obtain ⟨target, mode, account⟩ := q
  constructor
  · intro hmode a ha
    have ha' : account = some a := ha
    subst ha'
    cases mode with
    | insert => exact absurd rfl hmode
    | _ => exact h
  · intro hmode b hb
    have hmode' : mode = .insert := hmode
    have hb' : target = .brokerUserId b := hb
    subst hmode'
    subst hb'
    exact h

theorem commitAccounts_foldl {done : List LockRequest} (accounts : ℕ → Option ℕ) (b : ℕ) :
    done.foldl commitAccounts accounts b = accounts b ∨
      ∃ p ∈ done, p.mode = .insert ∧ p.target = .brokerUserId b := by
  induction done generalizing accounts with
  | nil => exact .inl rfl
  | cons p done ih =>
    rcases ih (commitAccounts accounts p) with heq | ⟨p', hp', hinsert⟩
    · by_cases hp : p.mode = .insert ∧ p.target = .brokerUserId b
      · exact .inr ⟨p, List.mem_cons_self, hp⟩
      · refine .inl ?_
        rw [List.foldl_cons, heq]
        obtain ⟨target, mode, account⟩ := p
        cases mode with
        | insert =>
          cases target with
          | brokerUserId b' =>
            have hne : b ≠ b' := by
              rintro rfl
              exact hp ⟨rfl, rfl⟩
            exact Function.update_of_ne hne _ _
          | _ => rfl
        | _ => rfl
    · exact .inr ⟨p', List.mem_cons_of_mem _ hp', hinsert⟩

/-- A request that must wait is none that nothing blocks, and none that is held already. -/
theorem Inv.waits_new (h : Inv world s) {index : ℕ} {t : LockTx} {q : LockRequest}
    (ht : s.txs[index]? = some t) (hended : t.ended = false) (hcontended : s.contended index q = true) :
    ¬ q.Free ∧ ∀ p ∈ t.done, ¬ p.Covers q := by
  obtain ⟨j, p, hne, hp, hblocks⟩ := contended_eq_true hcontended
  obtain ⟨htarget, hconflicts⟩ := blocks_iff.mp hblocks
  obtain ⟨before, -, hok⟩ := h.held_ok hp
  have hmeet : p.mode ≠ .meet := by
    intro hmeet
    rw [hmeet] at hconflicts
    cases q.mode <;> cases hconflicts
  refine ⟨fun hfree => ?_, fun p' hp' hcovers => ?_⟩
  · have hupdate : p.mode = .update := by
      rw [hfree.1] at hconflicts
      cases hmode : p.mode with
      | update => rfl
      | _ =>
        rw [hmode] at hconflicts
        cases hconflicts
    have hlevel := level_of_update hok.guard hupdate
    rw [htarget] at hlevel
    exact hfree.2 hlevel
  · obtain ⟨htarget', hmeet', hstrong⟩ := hcovers
    have hno := h.compat j index p p' hne hp ⟨t, ht, hended, hp'⟩ hmeet hmeet'
    have hyes : p.blocks p' = true := blocks_iff.mpr ⟨htarget.trans htarget'.symm, hstrong _ hconflicts⟩
    rw [hno] at hyes
    cases hyes

/-- A transaction begins, with nothing held. -/
theorem Inv.begin (h : Inv world s) {kind : TxKind} (hvalid : kind.Valid world) :
    Inv world { s with txs := s.txs ++ [⟨kind, [], kind.script world, none, false⟩] } := by
  have hcases : ∀ (i : ℕ) (t : LockTx), (s.txs ++ [(⟨kind, [], kind.script world, none, false⟩ : LockTx)])[i]? =
      some t → s.txs[i]? = some t ∨ t = ⟨kind, [], kind.script world, none, false⟩ := by
    intro i t ht
    rcases lt_trichotomy i s.txs.length with hlt | heq | hgt
    · rw [List.getElem?_append_left hlt] at ht
      exact .inl ht
    · subst heq
      rw [List.getElem?_concat_length] at ht
      injection ht with ht
      exact .inr ht.symm
    · rw [List.getElem?_eq_none (by simp; omega)] at ht
      cases ht
  have hholds : ∀ i p, ({ s with txs := s.txs ++ [⟨kind, [], kind.script world, none, false⟩] } :
      LockTable).Holds i p → s.Holds i p := by
    rintro i p ⟨t, ht, hended, hp⟩
    rcases hcases i t ht with ht | rfl
    · exact ⟨t, ht, hended, hp⟩
    · cases hp
  have hwaits : ∀ i q moment, ({ s with txs := s.txs ++ [⟨kind, [], kind.script world, none, false⟩] } :
      LockTable).Waits i q moment → s.Waits i q moment := by
    rintro i q moment ⟨t, ht, hended, hmoment, hq⟩
    rcases hcases i t ht with ht | rfl
    · exact ⟨t, ht, hended, hmoment, hq⟩
    · cases hmoment
  refine ⟨fun i t ht hended => ?_, fun i j p q hne hp hq => h.compat i j p q hne (hholds i p hp) (hholds j q hq),
    fun i p a hp => h.seen i p a (hholds i p hp), fun i p b hp => h.fresh i p b (hholds i p hp),
    fun i q moment hq => ?_⟩
  · rcases hcases i t ht with ht | rfl
    · exact h.script i t ht hended
    · exact ⟨hvalid, List.nil_append _⟩
  · obtain ⟨hfree, hcovers, hseen⟩ := h.waits i q moment (hwaits i q moment hq)
    exact ⟨hfree, fun p hp => hcovers p (hholds i p hp), hseen⟩

/-- **One event keeps the invariant.** -/
theorem Inv.act (h : Inv world s) (e : Act) : Inv world (s.act world e) := by
  cases e with
  | begin kind =>
    unfold LockTable.act
    simp only
    split_ifs with hvalid
    · exact h.begin hvalid
    · exact h
  | ask index =>
    cases ht : s.txs[index]? with
    | none => simpa only [LockTable.act, ht] using h
    | some t =>
      cases hrest : t.rest with
      | nil => simpa only [LockTable.act, ht, hrest] using h
      | cons q rest =>
        simp only [LockTable.act, ht, hrest]
        split_ifs with henabled hcontended hwaiting
        · obtain ⟨hended, hready⟩ := henabled
          obtain ⟨hfree, hcovers⟩ := h.waits_new ht hended hcontended
          obtain ⟨hvalid, hscript⟩ := h.script index t ht hended
          rw [hrest] at hscript
          refine h.goOn ht rfl rfl ⟨hvalid, hscript⟩ (fun p hp => .inl ⟨t, ht, hended, hp⟩) ?_
          intro q' moment _ hhead
          have hhead' : (q :: rest).head? = some q' := hhead
          rw [List.head?_cons] at hhead'
          injection hhead' with hhead'
          subst hhead'
          exact ⟨hfree, hcovers, (ready_seen hready).1⟩
        · exact h
        · obtain ⟨hended, hready⟩ := henabled
          obtain ⟨hvalid, hscript⟩ := h.script index t ht hended
          refine h.goOn ht rfl rfl ⟨hvalid, ?_⟩ (fun p hp => ?_) (fun q' moment hmoment => ?_)
          · show (t.done ++ [q]) ++ rest = t.kind.script world
            rw [← hscript, hrest]
            simp
          · rcases List.mem_append.mp hp with hp | hp
            · exact .inl ⟨t, ht, hended, hp⟩
            · rw [List.mem_singleton.mp hp]
              have hfree : s.contended index q = false := by simpa using hcontended
              exact .inr ⟨contended_eq_false hfree, (ready_seen hready).1, (ready_seen hready).2⟩
          · cases hmoment
        · exact h
  | commit index =>
    cases ht : s.txs[index]? with
    | none => simpa only [LockTable.act, ht] using h
    | some t =>
      simp only [LockTable.act, ht]
      split_ifs with henabled
      · refine h.finish ht rfl rfl (fun b => ?_)
        rcases @commitAccounts_foldl t.done s.accounts b with heq | ⟨p, hp, hinsert⟩
        · exact .inl heq
        · exact .inr ⟨p, ⟨t, ht, henabled.1, hp⟩, hinsert⟩
      · exact h
  | abort index =>
    cases ht : s.txs[index]? with
    | none => simpa only [LockTable.act, ht] using h
    | some t =>
      simp only [LockTable.act, ht]
      exact h.finish ht rfl rfl (fun b => .inl rfl)

end LockTable

/-- **The lock order admits no deadlock**: in any run of any number of the nine transactions the waits
make no cycle. -/
theorem lock_order_no_deadlock (world : LockWorld) (acts : List LockTable.Act) (i : ℕ) :
    ¬ Relation.TransGen (run (LockTable.act world) LockTable.start acts).WaitsFor i i := by
  have hinv : LockTable.Inv world (run (LockTable.act world) LockTable.start acts) :=
    run_induction LockTable.Inv.start (fun _ e h => h.act e) acts
  exact acyclic_of_measure (fun _ _ _ hij hjk => hinv.measure_lt hij hjk) i

end Binarius
