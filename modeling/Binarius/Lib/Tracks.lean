import Mathlib.Tactic
import Binarius.Lib.Owed

/-!
# Lib.Tracks — a transaction that breaks the invariant until it commits

A transaction of several writes may leave its own store, between two of them, in a state that no commit may
show.  `Protocol.Tracks V E` says only what its writes do to whatever is committed (`E`), and that they work
row by row (`RowView`); the guarantee is shown once, at the commit.

* `Tracks.learn`: what the locks keep of the committed store; `Tracks.learn_row`: what a locked row says.
* `Tracks.wp_change`, `Tracks.wp_changeKey`, `Tracks.wp_insertNew`, `Tracks.wp_changeAll`: **a change whose
  predicate is about the locked row**, and several of them in one statement.
* `Tracks.commits`: what the writes do gives the guarantee.
-/

namespace Lib

namespace Protocol

variable {σ L ε α : Type} {P : Protocol σ L}

/-- The row of a lock: two stores that a lock holds together have it in common. -/
structure RowView (P : Protocol σ L) where
  row : L → σ → σ → Prop
  of_same : ∀ {mode l a b}, P.same mode l a b → row l a b

/-- A write that works row by row. -/
def RowView.Local (V : RowView P) (f : σ → σ) : Prop := ∀ l a b, V.row l a b → V.row l (f a) (f b)

structure Tracks (V : RowView P) (E : σ → σ → Prop) (held : List (L × LockMode)) (writes : σ → σ) (s : σ) :
    Prop where
  inv : P.inv s
  rows : V.Local writes
  tracks : ∀ s', P.Env held s s' → E s' (writes s')

variable {V : RowView P} {held held' : List (L × LockMode)} {writes : σ → σ} {s s' : σ} {E E' : σ → σ →
  Prop}

namespace Tracks

/-- A transaction that begins has written nothing. -/
theorem start (hinv : P.inv s) (hE : ∀ s, P.inv s → E s s) : Tracks V E [] id s :=
  ⟨hinv, fun _ _ _ h => h, fun s' henv => hE s' henv.inv⟩

theorem env (h : Tracks V E held writes s) (henv : P.Env held s s') : Tracks V E held writes s' :=
  ⟨henv.inv, h.rows, fun s'' henv' => h.tracks s'' (henv.trans henv')⟩

theorem held_mono (h : Tracks V E held writes s) (hsub : ∀ p ∈ held, p ∈ held') :
    Tracks V E held' writes s :=
  ⟨h.inv, h.rows, fun s' henv => h.tracks s' (henv.mono hsub)⟩

theorem lock (h : Tracks V E held writes s) (l : L) (mode : LockMode) :
    Tracks V E ((l, mode) :: held) writes s :=
  h.held_mono fun _ hmem => List.mem_cons_of_mem _ hmem

theorem mono (h : Tracks V E held writes s) (hE : ∀ a b, P.inv a → E a b → E' a b) :
    Tracks V E' held writes s :=
  ⟨h.inv, h.rows, fun s' henv => hE _ _ henv.inv (h.tracks s' henv)⟩

/-- What holds now of the two stores. -/
theorem now (h : Tracks V E held writes s) : E s (writes s) := h.tracks s (Env.refl h.inv)

/-- **What the locks keep of the committed store is so at the commit.** -/
theorem learn (F : σ → Prop) (h : Tracks V E held writes s) (hF : ∀ s', P.Env held s s' → F s') :
    Tracks V (fun a b => E a b ∧ F a) held writes s :=
  ⟨h.inv, h.rows, fun s' henv => ⟨h.tracks s' henv, hF s' henv⟩⟩

/-- **What is read of a locked row is so at the commit.** -/
theorem learn_row (F : σ → Prop) {l : L} {mode : LockMode} (h : Tracks V E held writes s)
    (hl : (l, mode) ∈ held) (hF : F (writes s)) (hstable : ∀ a b, V.row l a b → F a → F b) :
    Tracks V (fun a b => E a b ∧ F b) held writes s :=
  ⟨h.inv, h.rows, fun s' henv =>
    ⟨h.tracks s' henv, hstable _ _ (h.rows _ _ _ (V.of_same (henv.same l mode hl))) hF⟩⟩

/-- A write: what it adds to the relation is shown at one store. -/
theorem write {f : σ → σ} (h : Tracks V E held writes s) (hf : V.Local f)
    (hstep : ∀ a b, P.inv a → E a b → E' a (f b)) : Tracks V E' held (f ∘ writes) s :=
  ⟨h.inv, fun l a b hab => hf l _ _ (h.rows l a b hab), fun s' henv => hstep s' _ henv.inv
    (h.tracks s' henv)⟩

/-- **A change whose predicate is about the locked row.** -/
theorem wp_change (E' : σ → σ → Prop) {l : L} {pred : σ → Bool} {f : σ → σ}
    {Q : Bool → List (L × LockMode) → (σ → σ) → σ → Prop} (h : Tracks V E held writes s)
    (hpred : ∀ a b, V.row l a b → pred b = pred a) (hf : V.Local f)
    (hstep : ∀ a b, P.inv a → E a b → pred b = true → E' a (f b))
    (hfalse : ∀ s', P.Env held s s' → Tracks V E held writes s' → pred (writes s') = false →
      Q false held writes s')
    (htrue : ∀ s', P.Env held s s' → pred (writes s') = true →
      Tracks V E' ((l, .exclusive) :: held) (f ∘ writes) s' →
      Q true ((l, .exclusive) :: held) (f ∘ writes) s') :
    P.wp (.change l pred f : TxProg σ L ε Bool) Q held writes s := by
  refine Protocol.wp_change (fun s' henv hp => hfalse s' henv (h.env henv) hp) (fun s' henv hp => ?_)
  have hlearned := ((h.env henv).lock l .exclusive).learn_row (fun b => pred b = true) List.mem_cons_self hp
    (fun a b hab hp => (hpred a b hab).trans hp)
  exact htrue s' henv hp (hlearned.write hf fun a b hinv hE => hstep a b hinv hE.1 hE.2)

/-- **A change of the row that the snapshot has under another key.** -/
theorem wp_changeKey {ι : Type} (E' : ι → σ → σ → Prop) {find : σ → Option ι} {l : ι → L}
    {pred : ι → σ → Bool} {f : ι → σ → σ} {Q : Option ι → List (L × LockMode) → (σ → σ) → σ → Prop}
    (h : Tracks V E held writes s) (hpred : ∀ i a b, V.row (l i) a b → pred i b = pred i a)
    (hf : ∀ i, V.Local (f i)) (hstep : ∀ i a b, P.inv a → E a b → pred i b = true → E' i a (f i b))
    (hnone : ∀ s', P.Env held s s' → Tracks V E held writes s' → Q none held writes s')
    (hsome : ∀ i s₁ s', P.Env held s s₁ → find (writes s₁) = some i → P.Env held s₁ s' →
      Tracks V (E' i) ((l i, .exclusive) :: held) (f i ∘ writes) s' →
      Q (some i) ((l i, .exclusive) :: held) (f i ∘ writes) s') :
    P.wp (.changeKey find l pred f : TxProg σ L ε (Option ι)) Q held writes s := by
  refine Protocol.wp_changeKey (fun s' henv _ => hnone s' henv (h.env henv))
    (fun s₁ s' i henv₁ _ henv₂ _ => hnone s' (henv₁.trans henv₂) (h.env (henv₁.trans henv₂)))
    (fun s₁ s' i henv₁ hfind henv₂ hp => hsome i s₁ s' henv₁ hfind henv₂ ?_)
  have hlearned := ((h.env (henv₁.trans henv₂)).lock (l i) .exclusive).learn_row (fun b => pred i b = true)
    List.mem_cons_self hp (fun a b hab hp => (hpred i a b hab).trans hp)
  exact hlearned.write (hf i) fun a b hinv hE => hstep i a b hinv hE.1 hE.2

/-- **A new row under its two keys.** -/
theorem wp_insertNew (E' : σ → σ → Prop) {arbiter pkey : L} {free fresh : σ → Bool} {f : σ → σ} {e : ε}
    {Q : Bool → List (L × LockMode) → (σ → σ) → σ → Prop} (h : Tracks V E held writes s)
    (hfresh : ∀ a b, V.row pkey a b → fresh b = fresh a) (hf : V.Local f)
    (hstep : ∀ a b, P.inv a → E a b → fresh b = true → E' a (f b))
    (hconflict : ∀ s', P.Env held s s' → Tracks V E held writes s' → Q false held writes s')
    (hnew : ∀ s', P.Env held s s' → Tracks V E' ((pkey, .exclusive) :: (arbiter, .exclusive) :: held)
      (f ∘ writes) s' → Q true ((pkey, .exclusive) :: (arbiter, .exclusive) :: held) (f ∘ writes) s') :
    P.wp (.insertNew arbiter pkey free fresh f e : TxProg σ L ε Bool) Q held writes s := by
  refine Protocol.wp_insertNew (fun s' henv _ => hconflict s' henv (h.env henv))
    (fun s₁ s' henv₁ _ henv hp => hnew s' (henv₁.trans henv.tail) ?_)
  have hclaimed := (((h.env henv₁).lock arbiter .exclusive).env henv).lock pkey .exclusive
  have hlearned := hclaimed.learn_row (fun b => fresh b = true) List.mem_cons_self hp
    (fun a b hab hp => (hfresh a b hab).trans hp)
  exact hlearned.write hf fun a b hinv hE => hstep a b hinv hE.1 hE.2

theorem wp_changeAll_from {ι : Type} {E : List ι → List ι → σ → σ → Prop} {l : ι → L} {pred : ι → σ → Bool}
    {f : ι → σ → σ} {written seen ids : List ι} (I : ι → Prop)
    {Q : List ι → List (L × LockMode) → (σ → σ) → σ → Prop}
    (h : Tracks V (E written seen) held writes s) (hI : ∀ i ∈ ids, I i)
    (hpred : ∀ i a b, V.row (l i) a b → pred i b = pred i a) (hf : ∀ i, V.Local (f i))
    (hwrite : ∀ written seen i a b, P.inv a → E written seen a b → pred i b = true →
      E (written ++ [i]) (seen ++ [i]) a (f i b))
    (hskip : ∀ written seen i a₀ b₀ a b, I i → E written seen a₀ b₀ → pred i b₀ = false → P.rely a₀ a →
      E written seen a b → E written (seen ++ [i]) a b)
    (hQ : ∀ out held' writes' s', (∀ p ∈ held, p ∈ held') → (∀ i ∈ out, (l i, .exclusive) ∈ held') →
      P.Env held s s' → Tracks V (E (written ++ out) (seen ++ ids)) held' writes' s' →
        Q out held' writes' s') :
    P.wp (.changeAll l pred f ids : TxProg σ L ε (List ι)) Q held writes s := by
  induction ids generalizing held writes s written seen Q with
  | nil =>
    refine hQ [] held writes s (fun _ hp => hp) (fun _ hmem => absurd hmem List.not_mem_nil)
      (Env.refl h.inv) ?_
    rw [List.append_nil, List.append_nil]
    exact h
  | cons i ids ih =>
    show P.wp ((TxProg.lock _ _ _ _).bind _) Q held writes s
    rw [wp_bind]
    refine wp_granted (fun s' henv hp => ?_) (fun s' henv hp => ?_)
    · -- the row does not match: it is as the rely leaves it
      have hskipped : Tracks V (E written (seen ++ [i])) held writes s' :=
        ⟨henv.inv, h.rows, fun s'' henv' =>
          hskip written seen i s' (writes s') s'' (writes s'') (hI i List.mem_cons_self) (h.env henv).now hp
            henv'.rely (h.tracks s'' (henv.trans henv'))⟩
      rw [wp_bind]
      refine ih hskipped (fun j hj => hI j (List.mem_cons_of_mem _ hj))
        (fun out held' writes' s'' hsub hlocks henv' h' => ?_)
      refine hQ out held' writes' s'' hsub hlocks (henv.trans henv') ?_
      rw [List.append_assoc] at h'
      exact h'
    · have hlearned := ((h.env henv).lock (l i) .exclusive).learn_row (fun b => pred i b = true)
        List.mem_cons_self hp (fun a b hab hp => (hpred i a b hab).trans hp)
      have hwritten := hlearned.write (hf i)
        (fun a b hinv hE => hwrite written seen i a b hinv hE.1 hE.2)
      rw [wp_bind]
      refine ih hwritten (fun j hj => hI j (List.mem_cons_of_mem _ hj))
        (fun out held' writes' s'' hsub hlocks henv' h' => ?_)
      refine hQ (i :: out) held' writes' s'' (fun p hp => hsub p (List.mem_cons_of_mem _ hp))
        (fun j hj => ?_)
        (henv.trans henv'.tail) ?_
      · rcases List.mem_cons.mp hj with rfl | hj
        · exact hsub _ List.mem_cons_self
        · exact hlocks j hj
      · rw [List.append_assoc, List.append_assoc] at h'
        exact h'

/-- **Several rows.**  `E` speaks of the rows written and of those seen: a row that no longer matched when
it was locked must not matter at the commit. -/
theorem wp_changeAll {ι : Type} (E : List ι → List ι → σ → σ → Prop) {l : ι → L} {pred : ι → σ → Bool}
    {f : ι → σ → σ} {ids : List ι} (I : ι → Prop) {Q : List ι → List (L × LockMode) → (σ → σ) → σ → Prop}
    (h : Tracks V (E [] []) held writes s) (hI : ∀ i ∈ ids, I i)
    (hpred : ∀ i a b, V.row (l i) a b → pred i b = pred i a) (hf : ∀ i, V.Local (f i))
    (hwrite : ∀ written seen i a b, P.inv a → E written seen a b → pred i b = true →
      E (written ++ [i]) (seen ++ [i]) a (f i b))
    (hskip : ∀ written seen i a₀ b₀ a b, I i → E written seen a₀ b₀ → pred i b₀ = false → P.rely a₀ a →
      E written seen a b → E written (seen ++ [i]) a b)
    (hQ : ∀ out held' writes' s', (∀ p ∈ held, p ∈ held') → (∀ i ∈ out, (l i, .exclusive) ∈ held') →
      P.Env held s s' → Tracks V (E out ids) held' writes' s' → Q out held' writes' s') :
    P.wp (.changeAll l pred f ids : TxProg σ L ε (List ι)) Q held writes s :=
  wp_changeAll_from I h hI hpred hf hwrite hskip hQ

/-- **What the writes do gives the guarantee.** -/
theorem commits (h : Tracks V E held writes s) {post : σ → σ → α → Prop} {a : α}
    (hpost : ∀ s s', P.inv s → E s s' → P.Guarantee held s s' ∧ post s s' a) :
    P.Commits post a held writes s :=
  fun s' henv => hpost _ _ henv.inv (h.tracks s' henv)

end Tracks

section View

variable {τ : Type} {P : Protocol τ L} {view : σ → τ} {E : τ → τ → Prop}

/-- The rows of a view. -/
def RowView.comap (V : RowView P) (view : σ → τ) : RowView (P.comap view) where
  row l a b := V.row l (view a) (view b)
  of_same h := V.of_same h

theorem RowView.Local.comap {V : RowView P} {f : σ → σ} {g : τ → τ} (h : V.Local g)
    (hf : ∀ s, view (f s) = g (view s)) : (V.comap view).Local f := by
  rintro l a b hab
  show V.row l (view (f a)) (view (f b))
  rw [hf, hf]
  exact h l _ _ hab

/-- **A program that leaves the view does what was done.** -/
theorem Tracks.frame {V : RowView P} {p : TxProg σ L ε α}
    {Q : α → List (L × LockMode) → (σ → σ) → σ → Prop} (hp : p.Frames view)
    (h : Tracks (V.comap view) (fun a b => E (view a) (view b)) held writes s)
    (hQ : ∀ a held' writes' s', (∀ x ∈ held, x ∈ held') → (P.comap view).Env held s s' →
      Tracks (V.comap view) (fun a b => E (view a) (view b)) held' writes' s' → Q a held' writes' s') :
    (P.comap view).wp p Q held writes s := by
  refine wp_frame hp h.inv (fun a held' writes' s' hsub hview henv => ?_)
  refine hQ a held' writes' s' hsub henv ⟨henv.inv, fun l x y hxy => ?_, fun s'' henv' => ?_⟩
  · show V.row l (view (writes' x)) (view (writes' y))
    rw [hview, hview]
    exact h.rows l x y hxy
  · rw [hview]
    exact h.tracks s'' (henv.trans (henv'.mono hsub))

end View

end Protocol

end Lib
