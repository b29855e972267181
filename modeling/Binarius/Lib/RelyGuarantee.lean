import Mathlib.Tactic
import Binarius.Lib.ReadCommitted

/-!
# Lib.RelyGuarantee — a weakest precondition for transactions among others

A `Protocol` says what holds of the committed store, what every commit keeps of it, and what a lock
protects: `same mode l` relates two stores between which nobody wrote what a holder of `l` in that mode
relies on.

* `Protocol.Env`: what the others can do to the store under the locks held.
* `Protocol.wp`: the others may commit before every statement that reads.
* `wp_bind`, `wp_select`, `wp_selectFor`, `wp_change`, `wp_changeAll`: the rules of the statements;
  `wp_frame`: of a program that leaves a view of the store.
* `Protocol.Sound`: every transaction of the system is proved alone; then, **in every interleaving, every
  commit gives its guarantee** (`WorldOk.commits`) **and the store keeps the invariant** (`Sound.run`).
-/

namespace Lib

structure Protocol (σ L : Type) where
  inv : σ → Prop
  rely : σ → σ → Prop
  same : LockMode → L → σ → σ → Prop
  rely_refl : ∀ s, rely s s
  rely_trans : ∀ {s₁ s₂ s₃}, rely s₁ s₂ → rely s₂ s₃ → rely s₁ s₃
  same_refl : ∀ mode l s, same mode l s s
  same_trans : ∀ {mode l s₁ s₂ s₃}, same mode l s₁ s₂ → same mode l s₂ s₃ → same mode l s₁ s₃

namespace Protocol

variable {σ L ε α β : Type} (P : Protocol σ L)

/-- What the others can do while these locks are held. -/
structure Env (held : List (L × LockMode)) (s s' : σ) : Prop where
  inv : P.inv s'
  rely : P.rely s s'
  same : ∀ l mode, (l, mode) ∈ held → P.same mode l s s'

/-- What a commit under these locks owes the others: a share holder's lock may be shared. -/
structure Guarantee (held : List (L × LockMode)) (s s' : σ) : Prop where
  inv : P.inv s'
  rely : P.rely s s'
  exclusive : ∀ l, (∀ mode, (l, mode) ∉ held) → P.same .exclusive l s s'
  share : ∀ l, (l, .exclusive) ∉ held → P.same .share l s s'

/-- The precondition of a program under locks and writes of its own. -/
def wp : TxProg σ L ε α → (α → List (L × LockMode) → (σ → σ) → σ → Prop) →
    List (L × LockMode) → (σ → σ) → σ → Prop
  | .ret a, Q, held, writes, s => Q a held writes s
  | .raise _, _, _, _, _ => True
  | .read k, Q, held, writes, s =>
    ∀ s', P.Env held s s' → wp (k (writes s')) Q held writes s'
  | .lock l mode keep k, Q, held, writes, s =>
    ∀ s', P.Env held s s' →
      wp (k (writes s')) Q (if keep (writes s') then (l, mode) :: held else held) writes s'
  | .write f k, Q, held, writes, s => wp k Q held (f ∘ writes) s

variable {P} {held : List (L × LockMode)} {writes : σ → σ} {s s' s'' : σ}

theorem Env.refl (h : P.inv s) : P.Env held s s := ⟨h, P.rely_refl s, fun l mode _ => P.same_refl mode l s⟩

theorem Env.trans (h : P.Env held s s') (h' : P.Env held s' s'') : P.Env held s s'' :=
  ⟨h'.inv, P.rely_trans h.rely h'.rely, fun l mode hl => P.same_trans (h.same l mode hl) (h'.same l mode hl)⟩

/-- Fewer locks protect less. -/
theorem Env.mono {held' : List (L × LockMode)} (h : P.Env held s s') (hsub : ∀ p ∈ held', p ∈ held) :
    P.Env held' s s' :=
  ⟨h.inv, h.rely, fun l mode hl => h.same l mode (hsub _ hl)⟩

theorem Env.head {l : L} {mode : LockMode} (h : P.Env ((l, mode) :: held) s s') : P.same mode l s s' :=
  h.same l mode List.mem_cons_self

theorem Env.tail {l : L} {mode : LockMode} (h : P.Env ((l, mode) :: held) s s') : P.Env held s s' :=
  h.mono (fun _ hp => List.mem_cons_of_mem _ hp)

theorem Guarantee.trans (h : P.Guarantee held s s') (h' : P.Guarantee held s' s'') :
    P.Guarantee held s s'' :=
  ⟨h'.inv, P.rely_trans h.rely h'.rely, fun l hl => P.same_trans (h.exclusive l hl) (h'.exclusive l hl),
    fun l hl => P.same_trans (h.share l hl) (h'.share l hl)⟩

theorem Guarantee.refl (h : P.inv s) : P.Guarantee held s s :=
  ⟨h, P.rely_refl s, fun l _ => P.same_refl _ l s, fun l _ => P.same_refl _ l s⟩

/-! ## The rules -/

section Rules

variable {Q Q' : α → List (L × LockMode) → (σ → σ) → σ → Prop}

theorem wp_mono {p : TxProg σ L ε α} (h : P.wp p Q held writes s)
    (hQ : ∀ a held writes s, Q a held writes s → Q' a held writes s) : P.wp p Q' held writes s := by
  induction p generalizing held writes s with
  | ret a => exact hQ a held writes s h
  | raise e => trivial
  | read k ih => exact fun s' henv => ih _ (h s' henv)
  | lock l mode keep k ih => exact fun s' henv => ih _ (h s' henv)
  | write f k ih => exact ih h

theorem wp_bind {p : TxProg σ L ε α} {f : α → TxProg σ L ε β}
    {R : β → List (L × LockMode) → (σ → σ) → σ → Prop} :
    P.wp (p.bind f) R held writes s ↔ P.wp p (fun a => P.wp (f a) R) held writes s := by
  induction p generalizing held writes s with
  | ret a => exact Iff.rfl
  | raise e => exact Iff.rfl
  | read k ih => exact forall₂_congr (fun s' _ => ih _)
  | lock l mode keep k ih => exact forall₂_congr (fun s' _ => ih _)
  | write f k ih => exact ih

@[simp] theorem wp_ret {a : α} : P.wp (.ret a : TxProg σ L ε α) Q held writes s ↔ Q a held writes s := Iff.rfl

@[simp] theorem wp_pure {a : α} : P.wp (pure a : TxProg σ L ε α) Q held writes s ↔ Q a held writes s := Iff.rfl

@[simp] theorem wp_raise {e : ε} : P.wp (.raise e : TxProg σ L ε α) Q held writes s ↔ True := Iff.rfl

@[simp] theorem wp_monad_bind {p : TxProg σ L ε α} {f : α → TxProg σ L ε β}
    {R : β → List (L × LockMode) → (σ → σ) → σ → Prop} :
    P.wp (p >>= f) R held writes s ↔ P.wp p (fun a => P.wp (f a) R) held writes s := wp_bind

@[simp] theorem wp_select {f : σ → α} :
    P.wp (.select f : TxProg σ L ε α) Q held writes s ↔
      ∀ s', P.Env held s s' → Q (f (writes s')) held writes s' := Iff.rfl

/-- A precondition that the others keep: they may commit first. -/
theorem wp_env {p : TxProg σ L ε α} (h : P.wp p Q held writes s)
    (hQ : ∀ a held writes s s', Q a held writes s → P.Env held s s' → Q a held writes s')
    (henv : P.Env held s s') : P.wp p Q held writes s' := by
  induction p generalizing held writes s s' with
  | ret a => exact hQ a held writes s s' h henv
  | raise e => trivial
  | read k _ => exact fun s'' henv' => h s'' (henv.trans henv')
  | lock l mode keep k _ => exact fun s'' henv' => h s'' (henv.trans henv')
  | write f k ih => exact ih h henv

theorem wp_selectFor {l : L} {mode : LockMode} {f : σ → Option α}
    {Q : Option α → List (L × LockMode) → (σ → σ) → σ → Prop}
    (hnone : ∀ s', P.Env held s s' → f (writes s') = none → Q none held writes s')
    (hsome : ∀ s' a, P.Env held s s' → f (writes s') = some a →
      Q (some a) ((l, mode) :: held) writes s') :
    P.wp (.selectFor l mode f : TxProg σ L ε (Option α)) Q held writes s := by
  intro s₁ henv₁
  show P.wp (if (f (writes s₁)).isSome then _ else _) Q held writes s₁
  split
  · intro s₂ henv₂
    show Q (f (writes s₂)) (if (f (writes s₂)).isSome then _ else _) writes s₂
    cases hf : f (writes s₂) with
    | none => exact hnone s₂ (henv₁.trans henv₂) hf
    | some a => exact hsome s₂ a (henv₁.trans henv₂) hf
  · rename_i hf
    exact hnone s₁ henv₁ (Option.not_isSome_iff_eq_none.mp hf)

/-- The granted half of a change. -/
theorem wp_granted {l : L} {pred : σ → Bool} {f : σ → σ}
    {Q : Bool → List (L × LockMode) → (σ → σ) → σ → Prop}
    (hfalse : ∀ s', P.Env held s s' → pred (writes s') = false → Q false held writes s')
    (htrue : ∀ s', P.Env held s s' → pred (writes s') = true →
      Q true ((l, .exclusive) :: held) (f ∘ writes) s') :
    P.wp (.lock l .exclusive pred (fun s => if pred s then .write f (.ret true) else .ret false)
      : TxProg σ L ε Bool) Q held writes s := by
  intro s' henv
  show P.wp (if pred (writes s') then _ else _) Q (if pred (writes s') then _ else _) writes s'
  by_cases hp : pred (writes s') = true
  · rw [if_pos hp, if_pos hp]
    exact htrue s' henv hp
  · rw [if_neg hp, if_neg hp]
    exact hfalse s' henv (Bool.eq_false_of_not_eq_true hp)

theorem wp_change {l : L} {pred : σ → Bool} {f : σ → σ}
    {Q : Bool → List (L × LockMode) → (σ → σ) → σ → Prop}
    (hfalse : ∀ s', P.Env held s s' → pred (writes s') = false → Q false held writes s')
    (htrue : ∀ s', P.Env held s s' → pred (writes s') = true →
      Q true ((l, .exclusive) :: held) (f ∘ writes) s') :
    P.wp (.change l pred f : TxProg σ L ε Bool) Q held writes s := by
  intro s₁ henv₁
  show P.wp (if pred (writes s₁) then _ else _) Q held writes s₁
  split
  · exact wp_granted (fun s₂ henv₂ => hfalse s₂ (henv₁.trans henv₂))
      (fun s₂ henv₂ => htrue s₂ (henv₁.trans henv₂))
  · rename_i hp
    exact hfalse s₁ henv₁ (Bool.eq_false_of_not_eq_true hp)

theorem wp_selectForKey {ι : Type} {find : σ → Option ι} {l : ι → L} {mode : LockMode} {f : ι → σ → Option α}
    {Q : Option α → List (L × LockMode) → (σ → σ) → σ → Prop}
    (hmissing : ∀ s', P.Env held s s' → find (writes s') = none → Q none held writes s')
    (hnone : ∀ s₁ s' i, P.Env held s s₁ → find (writes s₁) = some i → P.Env held s₁ s' →
      f i (writes s') = none → Q none held writes s')
    (hsome : ∀ s₁ s' i a, P.Env held s s₁ → find (writes s₁) = some i → P.Env held s₁ s' →
      f i (writes s') = some a → Q (some a) ((l i, mode) :: held) writes s') :
    P.wp (.selectForKey find l mode f : TxProg σ L ε (Option α)) Q held writes s := by
  intro s₁ henv₁
  beta_reduce
  split
  · rename_i i hfind
    intro s₂ henv₂
    show Q (f i (writes s₂)) (if (f i (writes s₂)).isSome then _ else _) writes s₂
    cases hf : f i (writes s₂) with
    | none => exact hnone s₁ s₂ i henv₁ hfind henv₂ hf
    | some a => exact hsome s₁ s₂ i a henv₁ hfind henv₂ hf
  · rename_i hfind
    exact hmissing s₁ henv₁ hfind

theorem wp_changeKey {ι : Type} {find : σ → Option ι} {l : ι → L} {pred : ι → σ → Bool} {f : ι → σ → σ}
    {Q : Option ι → List (L × LockMode) → (σ → σ) → σ → Prop}
    (hmissing : ∀ s', P.Env held s s' → find (writes s') = none → Q none held writes s')
    (hfalse : ∀ s₁ s' i, P.Env held s s₁ → find (writes s₁) = some i → P.Env held s₁ s' →
      pred i (writes s') = false → Q none held writes s')
    (htrue : ∀ s₁ s' i, P.Env held s s₁ → find (writes s₁) = some i → P.Env held s₁ s' →
      pred i (writes s') = true → Q (some i) ((l i, .exclusive) :: held) (f i ∘ writes) s') :
    P.wp (.changeKey find l pred f : TxProg σ L ε (Option ι)) Q held writes s := by
  intro s₁ henv₁
  beta_reduce
  split
  · rename_i i hfind
    split
    · intro s₂ henv₂
      show P.wp (if pred i (writes s₂) then _ else _) Q (if pred i (writes s₂) then _ else _) writes s₂
      by_cases hp : pred i (writes s₂) = true
      · rw [if_pos hp, if_pos hp]
        exact htrue s₁ s₂ i henv₁ hfind henv₂ hp
      · rw [if_neg hp, if_neg hp]
        exact hfalse s₁ s₂ i henv₁ hfind henv₂ (Bool.eq_false_of_not_eq_true hp)
    · rename_i hp
      exact hfalse s₁ s₁ i henv₁ hfind (Env.refl henv₁.inv) (Bool.eq_false_of_not_eq_true hp)
  · rename_i hfind
    exact hmissing s₁ henv₁ hfind

theorem wp_insertNew {arbiter pkey : L} {free fresh : σ → Bool} {f : σ → σ} {e : ε}
    {Q : Bool → List (L × LockMode) → (σ → σ) → σ → Prop}
    (hconflict : ∀ s', P.Env held s s' → free (writes s') = false → Q false held writes s')
    (hnew : ∀ s₁ s', P.Env held s s₁ → free (writes s₁) = true →
      P.Env ((arbiter, .exclusive) :: held) s₁ s' → fresh (writes s') = true →
      Q true ((pkey, .exclusive) :: (arbiter, .exclusive) :: held) (f ∘ writes) s') :
    P.wp (.insertNew arbiter pkey free fresh f e : TxProg σ L ε Bool) Q held writes s := by
  unfold TxProg.insertNew
  rw [wp_bind]
  refine wp_change (fun s' henv hp => hconflict s' henv hp) (fun s₁ henv₁ hfree => ?_)
  rw [if_pos rfl, wp_bind]
  refine wp_change (fun s' _ _ => trivial) (fun s' henv hfresh => ?_)
  exact hnew s₁ s' henv₁ hfree henv hfresh

/-- More locks are held than before. -/
theorem mem_keep {keep : Bool} {l : L} {mode : LockMode} {p : L × LockMode} (hp : p ∈ held) :
    p ∈ (if keep then (l, mode) :: held else held) := by
  split
  · exact List.mem_cons_of_mem _ hp
  · exact hp

/-- **A program that leaves a view of the store** needs no more than that. -/
theorem wp_frame {τ : Type} {view : σ → τ} {p : TxProg σ L ε α} (hp : p.Frames view) (hinv : P.inv s)
    (h : ∀ a held' writes' s', (∀ x ∈ held, x ∈ held') → (∀ t, view (writes' t) = view (writes t)) →
      P.Env held s s' → Q a held' writes' s') : P.wp p Q held writes s := by
  induction p generalizing held writes s with
  | ret a => exact h a held writes s (fun _ hx => hx) (fun _ => rfl) (Env.refl hinv)
  | raise e => trivial
  | read k ih =>
    intro s₁ henv₁
    exact ih _ (hp (writes s₁)) henv₁.inv
      (fun a held' writes' s' hsub hview henv => h a held' writes' s' hsub hview (henv₁.trans henv))
  | lock l mode keep k ih =>
    intro s₁ henv₁
    exact ih _ (hp (writes s₁)) henv₁.inv (fun a held' writes' s' hsub hview henv =>
      h a held' writes' s' (fun x hx => hsub x (mem_keep hx)) hview
        (henv₁.trans (henv.mono (fun x hx => mem_keep hx))))
  | write f k ih =>
    exact ih hp.2 hinv (fun a held' writes' s' hsub hview henv =>
      h a held' writes' s' hsub (fun t => (hview t).trans (hp.1 (writes t))) henv)

/-- The rows are locked and read, whichever are still there. -/
theorem wp_lockAll {ι : Type} {l : ι → L} {f : ι → σ → Option α} {ids : List ι}
    {Q : List α → List (L × LockMode) → (σ → σ) → σ → Prop}
    (h : ∀ rows held' s', (∀ p ∈ held, p ∈ held') → P.Env held s s' → Q rows held' writes s') (hinv : P.inv s) :
    P.wp (.lockAll l f ids : TxProg σ L ε (List α)) Q held writes s := by
  induction ids generalizing held s Q with
  | nil => exact h [] held s (fun _ hp => hp) (Env.refl hinv)
  | cons i ids ih =>
    intro s₁ henv₁
    show P.wp ((TxProg.lockAll l f ids).bind _) Q _ writes s₁
    rw [wp_bind]
    refine ih (fun rows held' s' hsub henv => ?_) henv₁.inv
    exact h _ held' s' (fun p hp => hsub p (mem_keep hp)) (henv₁.trans (henv.mono (fun p hp => mem_keep hp)))

/-- **Several rows.**  What one row's statement keeps of `I`, the rows done so far, the whole keeps. -/
theorem wp_changeAll {ι : Type} {l : ι → L} {pred : ι → σ → Bool} {f : ι → σ → σ} {rows : List ι}
    {Q : List ι → List (L × LockMode) → (σ → σ) → σ → Prop}
    (I : List ι → List ι → List (L × LockMode) → (σ → σ) → σ → Prop)
    (hstart : I [] [] held writes s)
    (hskip : ∀ i done written held writes s s', I done written held writes s → P.Env held s s' → i ∈ rows →
      pred i (writes s') = false → I (done ++ [i]) written held writes s')
    (hwrite : ∀ i done written held writes s s', I done written held writes s → P.Env held s s' → i ∈ rows →
      pred i (writes s') = true →
      I (done ++ [i]) (written ++ [i]) ((l i, .exclusive) :: held) (f i ∘ writes) s')
    (hend : ∀ written held writes s, I rows written held writes s → Q written held writes s) :
    P.wp (.changeAll l pred f rows : TxProg σ L ε (List ι)) Q held writes s := by
  suffices h : ∀ (done rest written : List ι) (held : List (L × LockMode)) (writes : σ → σ) (s : σ),
      done ++ rest = rows → I done written held writes s →
      P.wp (.changeAll l pred f rest : TxProg σ L ε (List ι))
        (fun others => Q (written ++ others)) held writes s by
    exact h [] rows [] held writes s rfl hstart
  intro done rest
  induction rest generalizing done with
  | nil =>
    intro written held writes s hrows hI
    rw [List.append_nil] at hrows
    subst hrows
    show Q (written ++ []) held writes s
    rw [List.append_nil]
    exact hend written held writes s hI
  | cons i rest ih =>
    intro written held writes s hrows hI
    have hi : i ∈ rows := by
      rw [← hrows]
      exact List.mem_append_right _ List.mem_cons_self
    have hrows' : (done ++ [i]) ++ rest = rows := by
      rw [List.append_assoc]
      exact hrows
    simp only [TxProg.changeAll]
    rw [wp_bind]
    refine wp_granted (fun s' henv hp => ?_) (fun s' henv hp => ?_)
    · rw [wp_bind]
      exact ih (done ++ [i]) written held writes s' hrows' (hskip i done written held writes s s' hI henv hi hp)
    · rw [wp_bind]
      refine wp_mono (ih (done ++ [i]) (written ++ [i]) _ _ s' hrows'
        (hwrite i done written held writes s s' hI henv hi hp)) (fun others held writes s h => ?_)
      rw [List.append_assoc] at h
      exact h

end Rules

/-! ## Interleavings -/

/-- What a program proves at its commit: the guarantee, and what its call promises. -/
def Commits (P : Protocol σ L) (post : σ → σ → α → Prop) (a : α) (held : List (L × LockMode))
    (writes : σ → σ) (s : σ) : Prop :=
  ∀ s', P.Env held s s' → P.Guarantee held s' (writes s') ∧ post s' (writes s') a

section Systems

variable {κ : Type} (P : Protocol σ L) (program : κ → TxProg σ L ε α)
  (post : κ → σ → σ → σ → α → Prop)

/-- Every call's program, begun in any store that keeps the invariant, is proved alone.  The post-condition
speaks of the store at the beginning, before the commit and after it. -/
def Sound : Prop := ∀ call s, P.inv s → P.wp (program call) (P.Commits (post call s)) [] id s

/-- The store keeps the invariant, each transaction in progress its precondition, and no two hold a lock in
conflicting modes. -/
structure WorldOk (w : StoreWorld σ L ε α κ) : Prop where
  inv : P.inv w.db
  txs : ∀ i r, w.tx i = some r → P.wp r.prog (P.Commits (post r.call r.began)) r.held r.writes w.db
  locks : ∀ i j r r', i ≠ j → w.tx i = some r → w.tx j = some r' → ∀ l mode mode', (l, mode) ∈ r.held →
    (l, mode') ∈ r'.held → mode.compatible mode' = true

end Systems

section Soundness

variable {κ : Type} {P : Protocol σ L} {program : κ → TxProg σ L ε α}
  {post : κ → σ → σ → σ → α → Prop} {w : StoreWorld σ L ε α κ} {i : ℕ} {r : Running σ L ε α κ}

open StoreWorld

/-- A transaction of the new world was there before, or is the one that moved. -/
theorem tx_of_setTx {j : ℕ} {r' : Option (Running σ L ε α κ)} {x : Running σ L ε α κ}
    (h : (w.setTx i r').tx j = some x) : (j = i ∧ r' = some x) ∨ (j ≠ i ∧ w.tx j = some x) := by
  unfold StoreWorld.tx setTx at h
  rw [List.getElem?_set] at h
  by_cases hj : j = i
  · subst hj
    left
    refine ⟨rfl, ?_⟩
    split at h
    · split at h
      · exact h
      · exact nomatch h
    · rename_i hne
      exact absurd rfl hne
  · rw [if_neg (Ne.symm hj)] at h
    exact .inr ⟨hj, h⟩

/-- A transaction ends without a commit. -/
theorem WorldOk.ended (hw : WorldOk P post w) (i : ℕ) : WorldOk P post (w.setTx i none) where
  inv := hw.inv
  txs := fun j x hx => by
    rcases tx_of_setTx hx with ⟨_, h⟩ | ⟨_, hx⟩
    · exact nomatch h
    · exact hw.txs j x hx
  locks := fun j k x y hjk hx hy => by
    rcases tx_of_setTx hx with ⟨_, h⟩ | ⟨_, hx⟩
    · exact nomatch h
    · rcases tx_of_setTx hy with ⟨_, h⟩ | ⟨_, hy⟩
      · exact nomatch h
      · exact hw.locks j k x y hjk hx hy

/-- A transaction moves on: its precondition holds on, and its locks conflict with no other's. -/
theorem WorldOk.moved (hw : WorldOk P post w) {r' : Running σ L ε α κ}
    (hwp : P.wp r'.prog (P.Commits (post r'.call r'.began)) r'.held r'.writes w.db)
    (hlocks : ∀ j x, j ≠ i → w.tx j = some x → ∀ l mode mode', (l, mode) ∈ r'.held → (l, mode') ∈ x.held →
      mode.compatible mode' = true ∧ mode'.compatible mode = true) :
    WorldOk P post (w.setTx i (some r')) where
  inv := hw.inv
  txs := fun j x hx => by
    rcases tx_of_setTx hx with ⟨rfl, h⟩ | ⟨_, hx⟩
    · obtain rfl := Option.some.inj h
      exact hwp
    · exact hw.txs j x hx
  locks := fun j k x y hjk hx hy l mode mode' hl hl' => by
    rcases tx_of_setTx hx with ⟨hj, h⟩ | ⟨hj, hx⟩
    · obtain rfl := Option.some.inj h
      rcases tx_of_setTx hy with ⟨hk, _⟩ | ⟨hk, hy⟩
      · exact absurd (hj.trans hk.symm) hjk
      · exact (hlocks k y hk hy l mode mode' hl hl').1
    · rcases tx_of_setTx hy with ⟨hk, h⟩ | ⟨hk, hy⟩
      · obtain rfl := Option.some.inj h
        exact (hlocks j x hj hx l mode' mode hl' hl).2
      · exact hw.locks j k x y hjk hx hy l mode mode' hl hl'

theorem compatible_comm (m m' : LockMode) : m.compatible m' = m'.compatible m := by
  cases m <;> cases m' <;> rfl

theorem WorldOk.locks_of_held (hw : WorldOk P post w) (hr : w.tx i = some r) {j : ℕ}
    {x : Running σ L ε α κ} (hj : j ≠ i) (hx : w.tx j = some x) {l : L} {mode mode' : LockMode}
    (hl : (l, mode) ∈ r.held) (hl' : (l, mode') ∈ x.held) :
    mode.compatible mode' = true ∧ mode'.compatible mode = true := by
  have h := hw.locks i j r x (Ne.symm hj) hr hx l mode mode' hl hl'
  exact ⟨h, by rw [compatible_comm]; exact h⟩

/-- The world before any transaction. -/
theorem WorldOk.initial {db : σ} (h : P.inv db) : WorldOk P post (⟨db, []⟩ : StoreWorld σ L ε α κ) where
  inv := h
  txs := fun _ _ hx => nomatch hx
  locks := fun _ _ _ _ _ hx => nomatch hx

/-- **Every commit gives its guarantee and its post-condition.** -/
theorem WorldOk.commits (hw : WorldOk P post w) {a : α} (hc : w.Commits i r a) :
    P.Guarantee r.held w.db (r.writes w.db) ∧ post r.call r.began w.db (r.writes w.db) a := by
  obtain ⟨hr, hprog⟩ := hc
  have hwp := hw.txs i r hr
  rw [hprog] at hwp
  exact hwp w.db (Env.refl hw.inv)

/-- **A commit.**  Its guarantee is what the others rely on under their locks. -/
theorem WorldOk.committed (hw : WorldOk P post w) {a : α} (hc : w.Commits i r a) :
    WorldOk P post { w.setTx i none with db := r.writes w.db } := by
  obtain ⟨hr, hprog⟩ := hc
  have hwp := hw.txs i r hr
  rw [hprog] at hwp
  obtain ⟨hguarantee, _⟩ := hwp w.db (Env.refl hw.inv)
  have hended := hw.ended i
  have hother : ∀ j x, (w.setTx i none).tx j = some x → j ≠ i ∧ w.tx j = some x := by
    intro j x hx
    rcases tx_of_setTx hx with ⟨_, h⟩ | h
    · exact nomatch h
    · exact h
  refine ⟨hguarantee.inv, fun j x hx => ?_, hended.locks⟩
  obtain ⟨hj, hx⟩ := hother j x hx
  refine wp_env (hw.txs j x hx) (fun a held writes s s' h henv s'' henv' => h s'' (henv.trans henv')) ?_
  refine ⟨hguarantee.inv, hguarantee.rely, fun l mode hl => ?_⟩
  cases mode with
  | exclusive =>
    refine hguarantee.exclusive l (fun mode' hl' => ?_)
    have h := (hw.locks_of_held hr hj hx hl' hl).2
    cases mode' <;> exact nomatch h
  | share =>
    refine hguarantee.share l (fun hl' => ?_)
    have h := (hw.locks_of_held hr hj hx hl' hl).1
    exact nomatch h

variable [DecidableEq L]

/-- The lock is granted: nobody else holds it in a conflicting mode. -/
theorem compatible_of_free {l : L} {mode : LockMode} (h : w.free i l mode = true) {j : ℕ}
    {x : Running σ L ε α κ} (hj : j ≠ i) (hx : w.tx j = some x) {mode' : LockMode}
    (hl : (l, mode') ∈ x.held) : mode'.compatible mode = true := by
  unfold free at h
  rw [List.all_eq_true] at h
  have hmem : w.txs[j]? = some (some x) := by
    unfold StoreWorld.tx at hx
    exact Option.join_eq_some_iff.mp hx
  have hp := h (some x, j) (List.mk_mem_zipIdx_iff_getElem?.mpr hmem)
  simp only [hj, decide_false, Bool.false_or, Option.all_some, grants, List.all_eq_true] at hp
  have hh := hp (l, mode') hl
  simpa using hh

theorem WorldOk.next (hw : WorldOk P post w) (hr : w.tx i = some r) : WorldOk P post (w.next i r) := by
  have hwp := hw.txs i r hr
  have hheld : ∀ j x, j ≠ i → w.tx j = some x → ∀ l mode mode', (l, mode) ∈ r.held → (l, mode') ∈ x.held →
      mode.compatible mode' = true ∧ mode'.compatible mode = true :=
    fun j x hj hx l mode mode' hl hl' => hw.locks_of_held hr hj hx hl hl'
  unfold StoreWorld.next
  split
  · rename_i a hprog
    exact hw.committed ⟨hr, hprog⟩
  · exact hw.ended i
  · rename_i k hprog
    rw [hprog] at hwp
    exact hw.moved (hwp w.db (Env.refl hw.inv)) hheld
  · rename_i l mode keep k hprog
    rw [hprog] at hwp
    split
    · rename_i hfree
      refine hw.moved (hwp w.db (Env.refl hw.inv)) (fun j x hj hx l' m m' hl hl' => ?_)
      have hgranted : (l', m) = (l, mode) → m.compatible m' = true ∧ m'.compatible m = true := by
        rintro h
        obtain ⟨rfl, rfl⟩ := Prod.mk.inj h
        have hcompat := compatible_of_free hfree hj hx hl'
        exact ⟨by rw [compatible_comm]; exact hcompat, hcompat⟩
      split at hl
      · rcases List.mem_cons.mp hl with h | h
        · exact hgranted h
        · exact hheld j x hj hx l' m m' h hl'
      · exact hheld j x hj hx l' m m' hl hl'
    · exact hw
  · rename_i f k hprog
    rw [hprog] at hwp
    exact hw.moved hwp hheld

/-- **Every action of a sound system keeps its world.** -/
theorem Sound.act (h : Sound P program post) (hw : WorldOk P post w) (a : StoreAct κ) :
    WorldOk P post (w.act program a) := by
  cases a with
  | start call =>
    have hnew : ∀ j x, (w.act program (.start call)).tx j = some x →
        w.tx j = some x ∨ x = ⟨call, w.db, program call, [], id⟩ := by
      intro j x hx
      simp only [StoreWorld.act, StoreWorld.tx] at hx
      rw [List.getElem?_append] at hx
      split at hx
      · exact .inl hx
      · right
        rw [List.getElem?_singleton] at hx
        split at hx
        · exact (Option.some.inj hx).symm
        · cases hx
    refine ⟨hw.inv, fun j x hx => ?_, fun j k x y hjk hx hy l mode mode' hl hl' => ?_⟩
    · rcases hnew j x hx with hx | rfl
      · exact hw.txs j x hx
      · exact h call w.db hw.inv
    · rcases hnew j x hx with hx | rfl
      · rcases hnew k y hy with hy | rfl
        · exact hw.locks j k x y hjk hx hy l mode mode' hl hl'
        · exact absurd hl' List.not_mem_nil
      · exact absurd hl List.not_mem_nil
  | step i =>
    simp only [StoreWorld.act]
    split
    · rename_i r hr
      exact hw.next hr
    · exact hw
  | rollback i => exact hw.ended i

theorem Sound.run (h : Sound P program post) (hw : WorldOk P post w) (acts : List (StoreAct κ)) :
    WorldOk P post (Lib.run (StoreWorld.act program) w acts) :=
  run_induction hw (fun _ a hw => h.act hw a) acts

/-- An action commits nothing, or a call with its guarantee and its post-condition. -/
theorem WorldOk.act_cases (hw : WorldOk P post w) (a : StoreAct κ) :
    (w.committed a = none ∧ (w.act program a).db = w.db) ∨
      ∃ call answer began, w.committed a = some (call, answer) ∧ P.rely w.db (w.act program a).db ∧
        P.inv (w.act program a).db ∧ post call began w.db (w.act program a).db answer := by
  cases h : w.committed a with
  | none => exact .inl ⟨rfl, db_of_not_committed h⟩
  | some p =>
    obtain ⟨call, answer⟩ := p
    obtain ⟨i, r, _, hc, rfl, hdb⟩ := committed_eq_some h
    obtain ⟨hguarantee, hpost⟩ := hw.commits hc
    rw [← hdb] at hguarantee hpost
    exact .inr ⟨r.call, answer, r.began, rfl, hguarantee.rely, hguarantee.inv, hpost⟩

theorem WorldOk.rely_act (hw : WorldOk P post w) (a : StoreAct κ) : P.rely w.db (w.act program a).db := by
  rcases hw.act_cases a with ⟨_, hdb⟩ | ⟨_, _, _, _, hrely, _⟩
  · rw [hdb]
    exact P.rely_refl _
  · exact hrely

/-- What every commit keeps, every run keeps. -/
theorem Sound.rely_run (h : Sound P program post) (hw : WorldOk P post w) (acts : List (StoreAct κ)) :
    P.rely w.db (Lib.run (StoreWorld.act program) w acts).db := by
  induction acts generalizing w with
  | nil => exact P.rely_refl _
  | cons a acts ih => exact P.rely_trans (hw.rely_act a) (ih (h.act hw a))

/-- **What a run has committed.**  A property of the answers so far and the store, which every commit's
post-condition keeps. -/
theorem Sound.history (h : Sound P program post) {H : List (κ × α) → σ → Prop} (hw : WorldOk P post w)
    {before : List (κ × α)} (hstart : H before w.db)
    (hcommit : ∀ hist call began s s' answer, P.inv s → P.inv s' → P.rely s s' → post call began s s' answer →
      H hist s → H (hist ++ [(call, answer)]) s')
    (acts : List (StoreAct κ)) :
    H (before ++ StoreWorld.answers program w acts) (Lib.run (StoreWorld.act program) w acts).db := by
  induction acts generalizing w before with
  | nil =>
    show H (before ++ []) w.db
    rw [List.append_nil]
    exact hstart
  | cons a acts ih =>
    show H (before ++ ((w.committed a).toList ++ _)) _
    rw [← List.append_assoc]
    refine ih (h.act hw a) ?_
    rcases hw.act_cases a with ⟨hnone, hdb⟩ | ⟨call, answer, began, hsome, hrely, hinv, hpost⟩
    · rw [hnone, hdb]
      show H (before ++ []) w.db
      rw [List.append_nil]
      exact hstart
    · rw [hsome]
      exact hcommit before call began w.db _ answer hw.inv hinv hrely hpost hstart

end Soundness

end Protocol

end Lib
