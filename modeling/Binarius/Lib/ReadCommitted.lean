import Mathlib.Tactic
import Binarius.Lib.Runs

/-!
# Lib.ReadCommitted — interleaved transactions over one store, statement by statement

A transaction is a program of statements.  A statement that reads sees what is committed when it runs, and
the transaction's own writes; one that locks waits until no other transaction holds the lock in a
conflicting mode, and then reads; locks are held to the end.  Writes are seen by others at the commit, all
at once; a transaction may roll back anywhere.

* `TxProg`: programs, a monad; `select`, `selectFor`, `change`, `insertNew`, `changeAll`: its statements.
* `StoreWorld.act`: any number of transactions begin, take a step, or roll back.
* `StoreWorld.db_of_not_committed`: **the store moves by commits only**; `answers`: what a run commits.
-/

namespace Lib

inductive LockMode
  | share
  | exclusive
  deriving DecidableEq, Repr

/-- Two transactions may hold one lock in these modes. -/
def LockMode.compatible : LockMode → LockMode → Bool
  | .share, .share => true
  | _, _ => false

/-- A transaction over the store `σ` with locks `L`: it answers an `α`, or throws an `ε`. -/
inductive TxProg (σ L ε α : Type)
  | ret (a : α)
  | raise (e : ε)
  /-- a statement that reads -/
  | read (k : σ → TxProg σ L ε α)
  /-- wait for the lock, read; the lock is held to the end if the row is there -/
  | lock (l : L) (mode : LockMode) (keep : σ → Bool) (k : σ → TxProg σ L ε α)
  | write (f : σ → σ) (k : TxProg σ L ε α)

namespace TxProg

variable {σ L ε α β : Type}

def bind (p : TxProg σ L ε α) (f : α → TxProg σ L ε β) : TxProg σ L ε β :=
  match p with
  | ret a => f a
  | raise e => raise e
  | read k => read (fun s => (k s).bind f)
  | lock l mode keep k => lock l mode keep (fun s => (k s).bind f)
  | write g k => write g (k.bind f)

instance : Monad (TxProg σ L ε) where
  pure := ret
  bind := bind

/-- A plain `SELECT`. -/
def select (f : σ → α) : TxProg σ L ε α := read (fun s => ret (f s))

/-- `SELECT … FOR NO KEY UPDATE` or `FOR SHARE` of one row: a row its snapshot does not have is not waited
for. -/
def selectFor (l : L) (mode : LockMode) (f : σ → Option α) : TxProg σ L ε (Option α) :=
  read (fun s =>
    if (f s).isSome then lock l mode (fun s => (f s).isSome) (fun s => ret (f s)) else ret none)

/-- An `UPDATE`, or an `INSERT … ON CONFLICT DO NOTHING`, of one row: nothing if the predicate fails in its
snapshot, else the predicate is checked again once the lock is granted.  Whether it wrote. -/
def change (l : L) (pred : σ → Bool) (f : σ → σ) : TxProg σ L ε Bool :=
  read (fun s =>
    if pred s then lock l .exclusive pred (fun s => if pred s then write f (ret true) else ret false)
    else ret false)

/-- `selectFor` of the row its snapshot has under another key. -/
def selectForKey {ι : Type} (find : σ → Option ι) (l : ι → L) (mode : LockMode) (f : ι → σ → Option α) :
    TxProg σ L ε (Option α) :=
  read (fun s =>
    match find s with
    | some i => lock (l i) mode (fun s => (f i s).isSome) (fun s => ret (f i s))
    | none => ret none)

/-- `change` of the row its snapshot has under another key: the row written. -/
def changeKey {ι : Type} (find : σ → Option ι) (l : ι → L) (pred : ι → σ → Bool) (f : ι → σ → σ) :
    TxProg σ L ε (Option ι) :=
  read (fun s =>
    match find s with
    | some i =>
      if pred i s then
        lock (l i) .exclusive (pred i) (fun s => if pred i s then write (f i) (ret (some i)) else ret none)
      else ret none
    | none => ret none)

/-- `INSERT … ON CONFLICT (arbiter) DO NOTHING` of a row with a primary key of its own: the arbiter is
settled first; a key that is taken is an error.  Whether it wrote. -/
def insertNew (arbiter pkey : L) (free fresh : σ → Bool) (f : σ → σ) (e : ε) : TxProg σ L ε Bool :=
  (change arbiter free id).bind (fun claimed =>
    if claimed then
      (change pkey fresh f).bind (fun written => if written then ret true else raise e)
    else ret false)

/-- `SELECT … FOR NO KEY UPDATE` of several rows, those its snapshot has, in order. -/
def lockAll {ι : Type} (l : ι → L) (f : ι → σ → Option α) : List ι → TxProg σ L ε (List α)
  | [] => ret []
  | i :: rest =>
    lock (l i) .exclusive (fun s => (f i s).isSome)
      (fun s => (lockAll l f rest).bind (fun others => ret ((f i s).toList ++ others)))

/-- An `UPDATE` of several rows, those its snapshot has: each is checked again once its lock is granted.
The rows written. -/
def changeAll {ι : Type} (l : ι → L) (pred : ι → σ → Bool) (f : ι → σ → σ) :
    List ι → TxProg σ L ε (List ι)
  | [] => ret []
  | i :: rest =>
    (lock (l i) .exclusive (pred i) (fun s => if pred i s then write (f i) (ret true) else ret false)).bind
      (fun written => (changeAll l pred f rest).bind
        (fun others => ret (if written then i :: others else others)))

/-- The program with no other transaction about. -/
def alone : TxProg σ L ε α → (σ → σ) → σ → Except ε (α × σ)
  | ret a, writes, s => .ok (a, writes s)
  | raise e, _, _ => .error e
  | read k, writes, s => (k (writes s)).alone writes s
  | lock _ _ _ k, writes, s => (k (writes s)).alone writes s
  | write f k, writes, s => k.alone (f ∘ writes) s

/-! ## Views -/

/-- No write of the program changes this view of the store. -/
def Frames {τ : Type} (view : σ → τ) : TxProg σ L ε α → Prop
  | ret _ => True
  | raise _ => True
  | read k => ∀ s, (k s).Frames view
  | lock _ _ _ k => ∀ s, (k s).Frames view
  | write f k => (∀ s, view (f s) = view s) ∧ k.Frames view

section Frames

variable {τ : Type} {view : σ → τ}

theorem Frames.bind {p : TxProg σ L ε α} {f : α → TxProg σ L ε β} (hp : p.Frames view)
    (hf : ∀ a, (f a).Frames view) : (p >>= f).Frames view := by
  show (p.bind f).Frames view
  induction p with
  | ret a => exact hf a
  | raise e => trivial
  | read k ih => exact fun s => ih s (hp s)
  | lock l mode keep k ih => exact fun s => ih s (hp s)
  | write g k ih => exact ⟨hp.1, ih hp.2⟩

theorem frames_pure (a : α) : (pure a : TxProg σ L ε α).Frames view := trivial

theorem frames_raise (e : ε) : (.raise e : TxProg σ L ε α).Frames view := trivial

theorem frames_select (f : σ → α) : (.select f : TxProg σ L ε α).Frames view := fun _ => trivial

theorem frames_selectFor (l : L) (mode : LockMode) (f : σ → Option α) :
    (.selectFor l mode f : TxProg σ L ε (Option α)).Frames view := by
  intro s
  beta_reduce
  split
  · exact fun _ => trivial
  · trivial

theorem frames_selectForKey {ι : Type} (find : σ → Option ι) (l : ι → L) (mode : LockMode)
    (f : ι → σ → Option α) : (.selectForKey find l mode f : TxProg σ L ε (Option α)).Frames view := by
  intro s
  beta_reduce
  split
  · exact fun _ => trivial
  · trivial

theorem frames_change {f : σ → σ} (hf : ∀ s, view (f s) = view s) (l : L) (pred : σ → Bool) :
    (.change l pred f : TxProg σ L ε Bool).Frames view := by
  intro s
  beta_reduce
  split
  · intro s'
    beta_reduce
    split
    · exact ⟨hf, trivial⟩
    · trivial
  · trivial

theorem frames_insertNew {f : σ → σ} (hf : ∀ s, view (f s) = view s) (arbiter pkey : L)
    (free fresh : σ → Bool) (e : ε) : (.insertNew arbiter pkey free fresh f e : TxProg σ L ε Bool).Frames view := by
  refine Frames.bind (frames_change (fun _ => rfl) arbiter free) (fun claimed => ?_)
  split
  · refine Frames.bind (frames_change hf pkey fresh) (fun written => ?_)
    split
    · trivial
    · trivial
  · trivial

theorem frames_lockAll {ι : Type} (l : ι → L) (f : ι → σ → Option α) (ids : List ι) :
    (.lockAll l f ids : TxProg σ L ε (List α)).Frames view := by
  induction ids with
  | nil => trivial
  | cons i ids ih => exact fun s => Frames.bind ih (fun _ => trivial)

end Frames

end TxProg

/-! ## Interleavings -/

/-- A transaction in progress. -/
structure Running (σ L ε α κ : Type) where
  call : κ
  /-- what was committed when it began -/
  began : σ
  prog : TxProg σ L ε α
  held : List (L × LockMode)
  /-- its own writes, over whatever is committed -/
  writes : σ → σ

/-- The committed store and the transactions begun, in the order they began; `none` once one has ended. -/
structure StoreWorld (σ L ε α κ : Type) where
  db : σ
  txs : List (Option (Running σ L ε α κ))

inductive StoreAct (κ : Type)
  | start (call : κ)
  | step (i : ℕ)
  | rollback (i : ℕ)
  deriving DecidableEq, Repr

namespace StoreWorld

variable {σ L ε α κ : Type} [DecidableEq L]

/-- The lock conflicts with none of the list. -/
def grants (held : List (L × LockMode)) (l : L) (mode : LockMode) : Bool :=
  held.all (fun h => h.1 ≠ l || h.2.compatible mode)

variable (program : κ → TxProg σ L ε α) (w : StoreWorld σ L ε α κ)

def tx (i : ℕ) : Option (Running σ L ε α κ) := w.txs[i]?.join

def setTx (i : ℕ) (r : Option (Running σ L ε α κ)) : StoreWorld σ L ε α κ :=
  { w with txs := w.txs.set i r }

/-- No other transaction holds the lock in a conflicting mode. -/
def free (i : ℕ) (l : L) (mode : LockMode) : Bool :=
  w.txs.zipIdx.all (fun p => p.2 = i || p.1.all (fun r => grants r.held l mode))

/-- The next statement of a transaction. -/
def next (i : ℕ) (r : Running σ L ε α κ) : StoreWorld σ L ε α κ :=
  match r.prog with
  | .ret _ => { w.setTx i none with db := r.writes w.db }
  | .raise _ => w.setTx i none
  | .read k => w.setTx i (some { r with prog := k (r.writes w.db) })
  | .lock l mode keep k =>
    if w.free i l mode then
      w.setTx i (some { r with
        prog := k (r.writes w.db)
        held := if keep (r.writes w.db) then (l, mode) :: r.held else r.held })
    else w
  | .write f k => w.setTx i (some { r with prog := k, writes := f ∘ r.writes })

def act : StoreAct κ → StoreWorld σ L ε α κ
  | .start call =>
    { w with txs := w.txs ++ [some { call, began := w.db, prog := program call, held := [], writes := id }] }
  | .step i =>
    match w.tx i with
    | some r => w.next i r
    | none => w
  | .rollback i => w.setTx i none

/-- The transaction's next step is its commit, with this answer. -/
def Commits (i : ℕ) (r : Running σ L ε α κ) (a : α) : Prop := w.tx i = some r ∧ r.prog = .ret a

/-- The call an action commits, with its answer. -/
def committed (w : StoreWorld σ L ε α κ) : StoreAct κ → Option (κ × α)
  | .step i =>
    match w.tx i with
    | some r =>
      match r.prog with
      | .ret a => some (r.call, a)
      | _ => none
    | none => none
  | _ => none

/-- The call an action ends by an error. -/
def thrown (w : StoreWorld σ L ε α κ) : StoreAct κ → Option (κ × ε)
  | .step i =>
    match w.tx i with
    | some r =>
      match r.prog with
      | .raise e => some (r.call, e)
      | _ => none
    | none => none
  | _ => none

/-- What a run commits, in order. -/
def answers (program : κ → TxProg σ L ε α) : StoreWorld σ L ε α κ → List (StoreAct κ) → List (κ × α)
  | _, [] => []
  | w, a :: acts => (w.committed a).toList ++ answers program (w.act program a) acts

variable {program w}

theorem committed_eq_some {a : StoreAct κ} {call : κ} {answer : α} (h : w.committed a = some (call, answer)) :
    ∃ i r, a = .step i ∧ w.Commits i r answer ∧ r.call = call ∧ (w.act program a).db = r.writes w.db := by
  cases a with
  | step i =>
    simp only [committed] at h
    split at h
    · rename_i r hr
      split at h
      · rename_i x hprog
        obtain ⟨hcall, hanswer⟩ := Prod.mk.inj (Option.some.inj h)
        subst hanswer
        exact ⟨i, r, rfl, ⟨hr, hprog⟩, hcall, by simp [act, hr, next, hprog]⟩
      · exact nomatch h
    · exact nomatch h
  | start call => exact nomatch h
  | rollback i => exact nomatch h

omit [DecidableEq L] in
/-- A call that ends by an error commits nothing. -/
theorem committed_of_thrown {a : StoreAct κ} {call : κ} {e : ε} (h : w.thrown a = some (call, e)) :
    w.committed a = none := by
  cases a with
  | step i =>
    simp only [thrown] at h
    simp only [committed]
    split at h
    · rename_i r hr
      split at h
      · rename_i e' hprog
        simp only [hprog]
      · exact nomatch h
    · exact nomatch h
  | start call => exact nomatch h
  | rollback i => exact nomatch h

/-- An action that commits nothing leaves the store. -/
theorem db_of_not_committed {a : StoreAct κ} (h : w.committed a = none) : (w.act program a).db = w.db := by
  cases a with
  | start call => rfl
  | rollback i => rfl
  | step i =>
    simp only [committed] at h
    simp only [act]
    split
    · rename_i r hr
      simp only [hr] at h
      cases hprog : r.prog with
      | ret answer =>
        rw [hprog] at h
        exact nomatch h
      | raise e => simp [next, hprog, setTx]
      | read k => simp [next, hprog, setTx]
      | lock l mode keep k =>
        simp only [next, hprog]
        split <;> rfl
      | write f k => simp [next, hprog, setTx]
    · rfl

end StoreWorld

end Lib
