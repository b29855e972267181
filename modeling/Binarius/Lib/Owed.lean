import Mathlib.Tactic
import Binarius.Lib.RelyGuarantee

/-!
# Lib.Owed — what a transaction owes at its commit, write by write

A transaction among others has written something over whatever is committed.  `Protocol.Owes E` says that
wherever the others have brought the store, its commit gives its guarantee and relates the two stores by
`E`, and that its writes pass on what a lock protects.

* `Owes.learn`: what is read under a lock is so at the commit; `Owes.learn_rely`: so is what every commit
  keeps.
* `Owes.wp_change`: **a change whose predicate is about the locked row**, its guarantee shown at one store.
* `Owes.commits`: what is owed is paid.
-/

namespace Lib

namespace Protocol

variable {σ L ε α β : Type} {P : Protocol σ L} {held held' : List (L × LockMode)} {writes : σ → σ}
  {s s' : σ}
  {E E' : σ → σ → Prop}

/-- A write passes on what a lock protects. -/
def Passes (P : Protocol σ L) (f : σ → σ) : Prop := ∀ mode l a b, P.same mode l a b → P.same mode l
    (f a) (f b)

theorem Passes.comp {f g : σ → σ} (hf : P.Passes f) (hg : P.Passes g) : P.Passes (f ∘ g) :=
  fun mode l a b h => hf mode l _ _ (hg mode l a b h)

structure Owes (P : Protocol σ L) (E : σ → σ → Prop) (held : List (L × LockMode)) (writes : σ → σ) (s : σ) :
    Prop where
  inv : P.inv s
  passes : P.Passes writes
  pays : ∀ s', P.Env held s s' → P.Guarantee held s' (writes s') ∧ E s' (writes s')

/-- More locks are held: less is owed. -/
theorem Guarantee.held_mono (h : P.Guarantee held s s') (hsub : ∀ p ∈ held, p ∈ held') :
    P.Guarantee held' s s' :=
  ⟨h.inv, h.rely, fun l hl => h.exclusive l fun mode hmem => hl mode (hsub _ hmem),
    fun l hl => h.share l fun hmem => hl (hsub _ hmem)⟩

namespace Owes

/-- A transaction that begins owes nothing. -/
theorem start (hinv : P.inv s) (hE : ∀ s, E s s) : P.Owes E [] id s :=
  ⟨hinv, fun _ _ _ _ h => h, fun s' henv => ⟨Guarantee.refl henv.inv, hE s'⟩⟩

theorem env (h : P.Owes E held writes s) (henv : P.Env held s s') : P.Owes E held writes s' :=
  ⟨henv.inv, h.passes, fun s'' henv' => h.pays s'' (henv.trans henv')⟩

theorem held_mono (h : P.Owes E held writes s) (hsub : ∀ p ∈ held, p ∈ held') : P.Owes E held' writes s :=
  ⟨h.inv, h.passes, fun s' henv =>
    ⟨(h.pays s' (henv.mono hsub)).1.held_mono hsub, (h.pays s' (henv.mono hsub)).2⟩⟩

theorem lock (h : P.Owes E held writes s) (l : L) (mode : LockMode) :
    P.Owes E ((l, mode) :: held) writes s :=
  h.held_mono fun _ hmem => List.mem_cons_of_mem _ hmem

theorem mono (h : P.Owes E held writes s) (hE : ∀ a b, E a b → E' a b) : P.Owes E' held writes s :=
  ⟨h.inv, h.passes, fun s' henv => ⟨(h.pays s' henv).1, hE _ _ (h.pays s' henv).2⟩⟩

/-- What holds now of the two stores. -/
theorem now (h : P.Owes E held writes s) : E s (writes s) := (h.pays s (Env.refl h.inv)).2

theorem now_inv (h : P.Owes E held writes s) : P.inv (writes s) := (h.pays s (Env.refl h.inv)).1.inv

/-- **What is read under a lock is so at the commit.** -/
theorem learn (F : σ → Prop) {l : L} {mode : LockMode} (h : P.Owes E held writes s) (hl : (l, mode) ∈ held)
    (hF : F (writes s)) (hstable : ∀ a b, P.same mode l a b → F a → F b) :
    P.Owes (fun a b => E a b ∧ F b) held writes s :=
  ⟨h.inv, h.passes, fun s' henv =>
    ⟨(h.pays s' henv).1, (h.pays s' henv).2, hstable _ _ (h.passes _ _ _ _ (henv.same l mode hl)) hF⟩⟩

/-- **What every commit keeps is so at the commit.** -/
theorem learn_rely (F : σ → Prop) (h : P.Owes E held writes s) (hF : F s)
    (hstable : ∀ a b, P.rely a b → F a → F b) : P.Owes (fun a b => E a b ∧ F a) held writes s :=
  ⟨h.inv, h.passes, fun s' henv => ⟨(h.pays s' henv).1, (h.pays s' henv).2, hstable _ _ henv.rely hF⟩⟩

/-- A write under a lock: its guarantee and what it adds to the relation are shown at one store. -/
theorem write {f : σ → σ} (h : P.Owes E held writes s) (hf : P.Passes f)
    (hstep : ∀ a b, P.Env held s a → b = writes a → P.inv b → E a b → P.Guarantee held b (f b) ∧
      E' a (f b)) :
    P.Owes E' held (f ∘ writes) s := by
  refine ⟨h.inv, hf.comp h.passes, fun s' henv => ?_⟩
  obtain ⟨hguarantee, hE⟩ := h.pays s' henv
  obtain ⟨hguarantee', hE'⟩ := hstep s' (writes s') henv rfl hguarantee.inv hE
  exact ⟨hguarantee.trans hguarantee', hE'⟩

/-- **A change whose predicate is about the locked row.** -/
theorem wp_change (E' : σ → σ → Prop) {l : L} {pred : σ → Bool} {f : σ → σ}
    {Q : Bool → List (L × LockMode) → (σ → σ) → σ → Prop} (h : P.Owes E held writes s) (hpred : ∀ a b,
      P.same .exclusive l a b → pred b = pred a) (hf : P.Passes f)
    (hstep : ∀ a b, P.inv b → E a b → pred b = true →
      P.Guarantee ((l, .exclusive) :: held) b (f b) ∧ E' a (f b))
    (hfalse : ∀ s', P.Env held s s' → P.Owes E held writes s' → pred (writes s') = false →
      Q false held writes s')
    (htrue : ∀ s', P.Env held s s' → P.Owes E' ((l, .exclusive) :: held) (f ∘ writes) s' →
      Q true ((l, .exclusive) :: held) (f ∘ writes) s') :
    P.wp (.change l pred f : TxProg σ L ε Bool) Q held writes s := by
  refine Protocol.wp_change (fun s' henv hp => hfalse s' henv (h.env henv) hp) (fun s' henv hp => ?_)
  refine htrue s' henv (((h.env henv).lock l .exclusive).write hf ?_)
  rintro a b henv' rfl hinv hE
  have hsame := h.passes _ _ _ _ henv'.head
  exact hstep a _ hinv hE ((hpred _ _ hsame).trans hp)

/-- **A new row under its two keys.** -/
theorem wp_insertNew (E' : σ → σ → Prop) {arbiter pkey : L} {free fresh : σ → Bool} {f : σ → σ} {e : ε}
    {Q : Bool → List (L × LockMode) → (σ → σ) → σ → Prop} (h : P.Owes E held writes s)
    (hfresh : ∀ a b, P.same .exclusive pkey a b → fresh b = fresh a) (hf : P.Passes f)
    (hstep : ∀ a b, P.inv b → E a b → fresh b = true →
      P.Guarantee ((pkey, .exclusive) :: (arbiter, .exclusive) :: held) b (f b) ∧ E' a (f b))
    (hconflict : ∀ s', P.Owes E held writes s' → Q false held writes s')
    (hnew : ∀ s', P.Owes E' ((pkey, .exclusive) :: (arbiter, .exclusive) :: held) (f ∘ writes) s' →
      Q true ((pkey, .exclusive) :: (arbiter, .exclusive) :: held) (f ∘ writes) s') :
    P.wp (.insertNew arbiter pkey free fresh f e : TxProg σ L ε Bool) Q held writes s := by
  refine Protocol.wp_insertNew (fun s' henv _ => hconflict s' (h.env henv))
    (fun s₁ s' henv₁ _ henv hp => hnew s' ?_)
  have hclaimed := ((h.env henv₁).lock arbiter .exclusive).env henv
  refine (hclaimed.lock pkey .exclusive).write hf ?_
  rintro a b henv' rfl hinv hE
  have hsame := h.passes _ _ _ _ henv'.head
  exact hstep a _ hinv hE ((hfresh _ _ hsame).trans hp)

/-- **What is owed is paid.** -/
theorem commits (h : P.Owes E held writes s) {post : σ → σ → α → Prop} {a : α}
    (hpost : ∀ s s', E s s' → post s s' a) : P.Commits post a held writes s :=
  fun s' henv => ⟨(h.pays s' henv).1, hpost _ _ (h.pays s' henv).2⟩

end Owes

/-! ## A protocol of a view -/

/-- The protocol of a store of which only a view matters. -/
def comap {τ : Type} (P : Protocol τ L) (view : σ → τ) : Protocol σ L where
  inv s := P.inv (view s)
  rely s s' := P.rely (view s) (view s')
  same mode l s s' := P.same mode l (view s) (view s')
  rely_refl s := P.rely_refl (view s)
  rely_trans h h' := P.rely_trans h h'
  same_refl mode l s := P.same_refl mode l (view s)
  same_trans h h' := P.same_trans h h'

section View

variable {τ : Type} {P : Protocol τ L} {view : σ → τ} {E : τ → τ → Prop}

theorem Guarantee.comap {s s' : σ} (h : P.Guarantee held (view s) (view s')) :
    (P.comap view).Guarantee held s s' := ⟨h.inv, h.rely, h.exclusive, h.share⟩

theorem Passes.comap {f : σ → σ} {g : τ → τ} (h : P.Passes g) (hf : ∀ s, view (f s) = g (view s)) :
    (P.comap view).Passes f := by
  rintro mode l a b hab
  show P.same mode l (view (f a)) (view (f b))
  rw [hf, hf]
  exact h mode l _ _ hab

/-- **A program that leaves the view owes what was owed.** -/
theorem Owes.frame {p : TxProg σ L ε α} {Q : α → List (L × LockMode) → (σ → σ) → σ → Prop}
    (hp : p.Frames view) (h : (P.comap view).Owes (fun a b => E (view a) (view b)) held writes s)
    (hQ : ∀ a held' writes' s', (∀ x ∈ held, x ∈ held') →
      (P.comap view).Owes (fun a b => E (view a) (view b)) held' writes' s' → Q a held' writes' s') :
    (P.comap view).wp p Q held writes s := by
  refine wp_frame hp h.inv (fun a held' writes' s' hsub hview henv => ?_)
  refine hQ a held' writes' s' hsub ⟨henv.inv, fun mode l x y hxy => ?_, fun s'' henv' => ?_⟩
  · show P.same mode l (view (writes' x)) (view (writes' y))
    rw [hview, hview]
    exact h.passes mode l x y hxy
  · obtain ⟨hguarantee, hE⟩ := h.pays s'' (henv.trans (henv'.mono hsub))
    have hpaid : P.Guarantee held' (view s'') (view (writes' s'')) := by
      rw [hview]
      exact Guarantee.held_mono ⟨hguarantee.inv, hguarantee.rely, hguarantee.exclusive,
        hguarantee.share⟩ hsub
    refine ⟨hpaid.comap, ?_⟩
    rw [hview]
    exact hE

end View

end Protocol

/-- A change of several rows leaves what each row's change leaves. -/
theorem TxProg.frames_changeAll {σ L ε τ ι : Type} {view : σ → τ} {f : ι → σ → σ}
    (hf : ∀ i s, view (f i s) = view s) (l : ι → L) (pred : ι → σ → Bool) (rows : List ι) :
    (.changeAll l pred f rows : TxProg σ L ε (List ι)).Frames view := by
  induction rows with
  | nil => trivial
  | cons i rows ih =>
    refine Frames.bind (fun s => ?_) (fun _ => Frames.bind ih (fun _ => trivial))
    beta_reduce
    split
    · exact ⟨hf i, trivial⟩
    · trivial

end Lib
