import Mathlib.Tactic
import Binarius.Db.ModeTables
import Binarius.Db.StaffLogins

/-!
# Db.StaffKept — what the staff transactions owe each other (packages/db/src: staff-ops.ts,
staff-link-ops.ts)

A login holds its own challenge or link to its commit and not the `staff` row; closing an account holds the
`staff` row, then every open challenge and link, then the sessions.

* `StaffDb.Fresh`: under the `staff` lock nothing new opens, and a new session has closed its way in.
* `StaffDb.Ok`: one way in of each kind, and nothing stands of a disabled account.
* `Good`: what a transaction in the middle has done; `opens_before`, `staffSession_before`: what the
  lock of the account says of the logins in flight.
* `Good.narrows`, `Good.widens`, `Good.addSession`, `Good.setStaff`: one write.
-/

namespace Binarius

open Lib

/-! ## What the transactions owe each other -/

namespace StaffDb

variable {a b c : StaffDb}

/-- The row of a lock. -/
def SameRow : StaffLock → StaffDb → StaffDb → Prop
  | .staff id, a, b => a.staff.find? id = b.staff.find? id
  | .challenge id, a, b => a.challenges.find? id = b.challenges.find? id
  | .link id, a, b => a.links.find? id = b.links.find? id
  | .session id, a, b => a.sessions.find? id = b.sessions.find? id

theorem SameRow.refl (l : StaffLock) (a : StaffDb) : SameRow l a a := by
  cases l <;> exact rfl

theorem SameRow.trans {l : StaffLock} (h : SameRow l a b) (h' : SameRow l b c) : SameRow l a c := by
  cases l <;> exact Eq.trans h h'

theorem SameRow.opens {w : WayIn} (h : SameRow w.lock a b) (staffId : StaffId) :
    a.opens staffId w = b.opens staffId w := by
  cases w with
  | challenge id => exact congrArg (Option.any _) h
  | link id => exact congrArg (Option.any _) h

/-- A session of one store is another's, still its owner's; a revocation and an expiry stay. -/
def KeptSession (r r' : StaffSessionRow) : Prop :=
  r'.staffId = r.staffId ∧ r'.expiresAt = r.expiresAt ∧ (r.revokedAt.isSome = true →
    r'.revokedAt.isSome = true)

/-- What every commit keeps: an account stays disabled, a way in that is closed stays closed. -/
structure RowsKept (a b : StaffDb) : Prop where
  disabled : ∀ id r, a.staff.find? id = some r → r.status = .disabled →
    ∃ r', b.staff.find? id = some r' ∧ r'.status = .disabled
  challenges : ∀ id r, a.challenges.find? id = some r →
    ∃ r', b.challenges.find? id = some r' ∧ r'.staffId = r.staffId ∧ r'.expiresAt = r.expiresAt ∧
      (r'.status.isOpen = true → r.status.isOpen = true)
  links : ∀ id r, a.links.find? id = some r →
    ∃ r', b.links.find? id = some r' ∧ r'.staffId = r.staffId ∧ (r'.status = .issued → r.status = .issued)
  sessions : ∀ id r, a.sessions.find? id = some r → ∃ r', b.sessions.find? id = some r' ∧ KeptSession r r'

theorem RowsKept.refl (a : StaffDb) : RowsKept a a :=
  ⟨fun _ r h hd => ⟨r, h, hd⟩, fun _ r h => ⟨r, h, rfl, rfl, fun ho => ho⟩,
    fun _ r h => ⟨r, h, rfl, fun ho => ho⟩, fun _ r h => ⟨r, h, rfl, rfl, fun ho => ho⟩⟩

theorem RowsKept.trans (h : RowsKept a b) (h' : RowsKept b c) : RowsKept a c := by
  refine ⟨fun id r hr hd => ?_, fun id r hr => ?_, fun id r hr => ?_, fun id r hr => ?_⟩
  · obtain ⟨r₁, hr₁, hd₁⟩ := h.disabled id r hr hd
    exact h'.disabled id r₁ hr₁ hd₁
  · obtain ⟨r₁, hr₁, hs₁, he₁, ho₁⟩ := h.challenges id r hr
    obtain ⟨r₂, hr₂, hs₂, he₂, ho₂⟩ := h'.challenges id r₁ hr₁
    exact ⟨r₂, hr₂, hs₂.trans hs₁, he₂.trans he₁, fun ho => ho₁ (ho₂ ho)⟩
  · obtain ⟨r₁, hr₁, hs₁, ho₁⟩ := h.links id r hr
    obtain ⟨r₂, hr₂, hs₂, ho₂⟩ := h'.links id r₁ hr₁
    exact ⟨r₂, hr₂, hs₂.trans hs₁, fun ho => ho₁ (ho₂ ho)⟩
  · obtain ⟨r₁, hr₁, hs₁, he₁, ho₁⟩ := h.sessions id r hr
    obtain ⟨r₂, hr₂, hs₂, he₂, ho₂⟩ := h'.sessions id r₁ hr₁
    exact ⟨r₂, hr₂, hs₂.trans hs₁, he₂.trans he₁, fun ho => ho₂ (ho₁ ho)⟩

/-- A session of the member that is new has closed a way in. -/
def Caused (staffId : StaffId) (a b : StaffDb) : Prop :=
  ∃ w, a.opens staffId w = true ∧ b.opens staffId w = false

/-- Nothing new opens for the member, and a new session has closed a way in. -/
structure Fresh (staffId : StaffId) (a b : StaffDb) : Prop where
  ways : ∀ w, b.opens staffId w = true → a.opens staffId w = true
  sessions : ∀ id r, b.sessions.find? id = some r → r.staffId = staffId →
    (∃ r₀, a.sessions.find? id = some r₀ ∧ r₀.staffId = staffId) ∨ Caused staffId a b

theorem Fresh.refl (staffId : StaffId) (a : StaffDb) : Fresh staffId a a :=
  ⟨fun _ h => h, fun _ r h hs => .inl ⟨r, h, hs⟩⟩

theorem Fresh.trans {staffId : StaffId} (h : Fresh staffId a b) (h' : Fresh staffId b c) :
    Fresh staffId a c := by
  refine ⟨fun w hw => h.ways w (h'.ways w hw), fun id r hr hs => ?_⟩
  rcases h'.sessions id r hr hs with ⟨r₁, hr₁, hs₁⟩ | ⟨w, hopen, hclosed⟩
  · rcases h.sessions id r₁ hr₁ hs₁ with hold | ⟨w, hopen, hclosed⟩
    · exact .inl hold
    · refine .inr ⟨w, hopen, ?_⟩
      cases hw : c.opens staffId w with
      | false => rfl
      | true => exact (h'.ways w hw).symm.trans hclosed
  · exact .inr ⟨w, h.ways w hopen, hclosed⟩

/-- At most one challenge and one link of a member is open. -/
def OneOpen (db : StaffDb) : Prop :=
  ∀ staffId, (∀ i j, db.opens staffId (.challenge i) = true → db.opens staffId (.challenge j) = true →
    i = j) ∧
    ∀ i j, db.opens staffId (.link i) = true → db.opens staffId (.link j) = true → i = j

/-- What stands of a member at a moment: no way in is open, no session is neither revoked nor over. -/
structure Closed (db : StaffDb) (staffId : StaffId) (t : ℕ) : Prop where
  ways : ∀ w, db.opens staffId w = false
  sessions : ∀ id r, db.sessions.find? id = some r → r.staffId = staffId → r.revokedAt.isSome = true ∨
    r.expiresAt ≤ t

/-- What stands of a member but for one session. -/
structure ClosedBut (db : StaffDb) (staffId : StaffId) (keep : Option StaffSessionId) (t : ℕ) : Prop where
  ways : ∀ w, db.opens staffId w = false
  sessions : ∀ id r, db.sessions.find? id = some r → r.staffId = staffId →
    keep = some id ∨ r.revokedAt.isSome = true ∨ r.expiresAt ≤ t

theorem ClosedBut.closed {db : StaffDb} {staffId : StaffId} {t : ℕ} (h : db.ClosedBut staffId none t) :
    db.Closed staffId t := by
  refine ⟨h.ways, fun id r hr hs => ?_⟩
  rcases h.sessions id r hr hs with hkeep | hover
  · cases hkeep
  · exact hover

/-- Nothing stands of the account, if it is disabled. -/
def ClosedIfDisabled (db : StaffDb) (staffId : StaffId) : Prop :=
  ∀ r, db.staff.find? staffId = some r → r.status = .disabled → db.Closed staffId r.updatedAt

structure Ok (db : StaffDb) : Prop where
  one : db.OneOpen
  disabled : ∀ staffId, db.ClosedIfDisabled staffId

end StaffDb

open StaffDb

def staffProtocol : Protocol StaffDb StaffLock where
  inv := StaffDb.Ok
  rely := RowsKept
  same _ l a b := SameRow l a b ∧ ∀ id, l = .staff id → Fresh id a b
  rely_refl := RowsKept.refl
  rely_trans h h' := h.trans h'
  same_refl _ l a := ⟨SameRow.refl l a, fun id _ => Fresh.refl id a⟩
  same_trans h h' := ⟨h.1.trans h'.1, fun id hl => (h.2 id hl).trans (h'.2 id hl)⟩

def staffRows : Protocol.RowView staffProtocol := ⟨SameRow, fun h => h.1⟩

/-- What a transaction in the middle has done to whatever is committed; of the account `pending` it does not
yet say that nothing stands. -/
structure Good (pending : Option StaffId) (held : List (StaffLock × LockMode)) (a b : StaffDb) : Prop where
  rows : ∀ l, (l, .exclusive) ∉ held → SameRow l a b
  kept : RowsKept a b
  fresh : ∀ id, (.staff id, .exclusive) ∉ held → Fresh id a b
  one : b.OneOpen
  disabled : ∀ id, pending ≠ some id → b.ClosedIfDisabled id

abbrev Working (pending : Option StaffId) (held : List (StaffLock × LockMode)) (writes : StaffDb → StaffDb)
    (db : StaffDb) : Prop :=
  Protocol.Tracks staffRows (Good pending held) held writes db

section Working

variable {pending : Option StaffId} {held held' : List (StaffLock × LockMode)} {writes : StaffDb → StaffDb}
  {db db' a b : StaffDb} {staffId : StaffId}

theorem Good.refl (h : a.Ok) : Good none held a a :=
  ⟨fun l _ => SameRow.refl l a, RowsKept.refl a, fun id _ => Fresh.refl id a, h.one, fun id _ =>
    h.disabled id⟩

theorem Good.held_mono (h : Good pending held a b) (hsub : ∀ p ∈ held, p ∈ held') :
    Good pending held' a b :=
  ⟨fun l hl => h.rows l (fun hmem => hl (hsub _ hmem)), h.kept,
    fun id hid => h.fresh id (fun hmem => hid (hsub _ hmem)), h.one, h.disabled⟩

theorem Good.guarantee (h : Good none held a b) : staffProtocol.Guarantee held a b := by
  refine ⟨⟨h.one, fun id => h.disabled id (by simp)⟩, h.kept, fun l hl => ?_, fun l hl => ?_⟩
  · exact ⟨h.rows l (hl .exclusive), fun id hid => h.fresh id (hid ▸ hl .exclusive)⟩
  · exact ⟨h.rows l hl, fun id hid => h.fresh id (hid ▸ hl)⟩

/-- **Under the account's lock no way in opens**, for the transaction either: it has written the rows it
locked, and those alone. -/
theorem opens_before (h : Working pending held writes db) (hlock : (.staff staffId, .exclusive) ∈ held)
    (henv : staffProtocol.Env held db db') {w : WayIn} (hopen : (writes db').opens staffId w = true) :
    (writes db).opens staffId w = true := by
  by_cases hw : (w.lock, .exclusive) ∈ held
  · rw [← (h.rows _ _ _ (henv.same _ _ hw).1 : SameRow w.lock (writes db) (writes db')).opens] at hopen
    exact hopen
  · have hsame := ((h.tracks db' henv).rows w.lock hw).opens staffId
    have hsame₀ := (h.now.rows w.lock hw).opens staffId
    rw [← hsame] at hopen
    rw [← hsame₀]
    exact ((henv.same _ _ hlock).2 staffId rfl).ways w hopen

/-- Once no way in is open, no session of the member is new. -/
theorem staffSession_before (h : Working pending held writes db) (hlock : (.staff staffId, .exclusive) ∈
    held)
    (hclosed : ∀ w, (writes db).opens staffId w = false) (henv : staffProtocol.Env held db db')
    {id : StaffSessionId} {r : StaffSessionRow} (hr : db'.sessions.find? id = some r)
      (hs : r.staffId = staffId) :
    ∃ r₀, db.sessions.find? id = some r₀ ∧ KeptSession r₀ r := by
  have hold : ∀ r₀, db.sessions.find? id = some r₀ → ∃ r₀, db.sessions.find? id = some r₀ ∧
    KeptSession r₀ r := by
    intro r₀ hr₀
    obtain ⟨r', hr', hkept⟩ := henv.rely.sessions id r₀ hr₀
    rw [hr] at hr'
    exact ⟨r₀, hr₀, Option.some.inj hr' ▸ hkept⟩
  rcases ((henv.same _ _ hlock).2 staffId rfl).sessions id r hr hs with ⟨r₀, hr₀, -⟩ | ⟨w, hopen, hnow⟩
  · exact hold r₀ hr₀
  · -- the way in that it closed is open in what was committed, so it is one of the rows locked
    by_cases hw : (w.lock, .exclusive) ∈ held
    · rw [← ((henv.same _ _ hw).1 : SameRow w.lock db db').opens, hopen] at hnow
      cases hnow
    · have hsame := (h.now.rows w.lock hw).opens staffId
      rw [hopen, hclosed w] at hsame
      cases hsame

end Working

/-! ## Writes -/

/-- The write is of one row. -/
structure WritesRow (l : StaffLock) (f : StaffDb → StaffDb) : Prop where
  rows : staffRows.Local f
  others : ∀ l' ≠ l, ∀ db, SameRow l' db (f db)

section Writes

theorem writesRow_setStaff {id : StaffId} {f : StaffRow → StaffRow} (hf : ∀ r, (f r).id = r.id) :
    WritesRow (.staff id) (setStaff id f) := by
  refine ⟨fun l a b hab => ?_, fun l hl db => ?_⟩
  · cases l with
    | staff j =>
      show (a.staff.modified id f).find? j = (b.staff.modified id f).find? j
      rw [Table.find?_modified hf, Table.find?_modified hf, show a.staff.find? j = b.staff.find? j from hab]
    | challenge j => exact hab
    | link j => exact hab
    | session j => exact hab
  · cases l with
    | staff j =>
      show db.staff.find? j = (db.staff.modified id f).find? j
      rw [Table.find?_modified hf, if_neg (fun h => hl (congrArg StaffLock.staff h.symm))]
    | challenge j => exact rfl
    | link j => exact rfl
    | session j => exact rfl

theorem writesRow_setChallenge {id : ChallengeId} {f : StaffLoginChallengeRow → StaffLoginChallengeRow}
    (hf : ∀ r, (f r).id = r.id) : WritesRow (.challenge id) (setChallenge id f) := by
  refine ⟨fun l a b hab => ?_, fun l hl db => ?_⟩
  · cases l with
    | challenge j =>
      show (a.challenges.modified id f).find? j = (b.challenges.modified id f).find? j
      rw [Table.find?_modified hf, Table.find?_modified hf,
        show a.challenges.find? j = b.challenges.find? j from hab]
    | staff j => exact hab
    | link j => exact hab
    | session j => exact hab
  · cases l with
    | challenge j =>
      show db.challenges.find? j = (db.challenges.modified id f).find? j
      rw [Table.find?_modified hf, if_neg (fun h => hl (congrArg StaffLock.challenge h.symm))]
    | staff j => exact rfl
    | link j => exact rfl
    | session j => exact rfl

theorem writesRow_setLink {id : LinkId} {f : StaffLoginLinkRow → StaffLoginLinkRow}
    (hf : ∀ r, (f r).id = r.id) : WritesRow (.link id) (setLink id f) := by
  refine ⟨fun l a b hab => ?_, fun l hl db => ?_⟩
  · cases l with
    | link j =>
      show (a.links.modified id f).find? j = (b.links.modified id f).find? j
      rw [Table.find?_modified hf, Table.find?_modified hf, show a.links.find? j = b.links.find? j from hab]
    | staff j => exact hab
    | challenge j => exact hab
    | session j => exact hab
  · cases l with
    | link j =>
      show db.links.find? j = (db.links.modified id f).find? j
      rw [Table.find?_modified hf, if_neg (fun h => hl (congrArg StaffLock.link h.symm))]
    | staff j => exact rfl
    | challenge j => exact rfl
    | session j => exact rfl

theorem writesRow_setSession {id : StaffSessionId} {f : StaffSessionRow → StaffSessionRow}
    (hf : ∀ r, (f r).id = r.id) : WritesRow (.session id) (setSession id f) := by
  refine ⟨fun l a b hab => ?_, fun l hl db => ?_⟩
  · cases l with
    | session j =>
      show (a.sessions.modified id f).find? j = (b.sessions.modified id f).find? j
      rw [Table.find?_modified hf, Table.find?_modified hf,
        show a.sessions.find? j = b.sessions.find? j from hab]
    | staff j => exact hab
    | challenge j => exact hab
    | link j => exact hab
  · cases l with
    | session j =>
      show db.sessions.find? j = (db.sessions.modified id f).find? j
      rw [Table.find?_modified hf, if_neg (fun h => hl (congrArg StaffLock.session h.symm))]
    | staff j => exact rfl
    | challenge j => exact rfl
    | link j => exact rfl

theorem insertKey_local {κ ρ : Type} [DecidableEq κ] {k : κ} {row : ρ} {s t : κ → Option ρ} {j : κ}
    (h : s j = t j) : insertKey k row s j = insertKey k row t j := by
  unfold insertKey
  rw [h]

theorem insertKey_other {κ ρ : Type} [DecidableEq κ] {k j : κ} {row : ρ} {s : κ → Option ρ} (h : k ≠ j) :
    s j = insertKey k row s j := (if_neg h).symm

theorem writesRow_addChallenge (row : StaffLoginChallengeRow) :
    WritesRow (.challenge row.id) (addChallenge row) := by
  refine ⟨fun l a b hab => ?_, fun l hl db => ?_⟩
  · cases l with
    | challenge j =>
      show (a.challenges.inserted row).find? j = (b.challenges.inserted row).find? j
      rw [find?_inserted_insertKey, find?_inserted_insertKey]
      exact insertKey_local hab
    | staff j => exact hab
    | link j => exact hab
    | session j => exact hab
  · cases l with
    | challenge j =>
      show db.challenges.find? j = (db.challenges.inserted row).find? j
      rw [find?_inserted_insertKey]
      exact insertKey_other (fun h => hl (congrArg StaffLock.challenge h.symm))
    | staff j => exact rfl
    | link j => exact rfl
    | session j => exact rfl

theorem writesRow_addLink (row : StaffLoginLinkRow) : WritesRow (.link row.id) (addLink row) := by
  refine ⟨fun l a b hab => ?_, fun l hl db => ?_⟩
  · cases l with
    | link j =>
      show (a.links.inserted row).find? j = (b.links.inserted row).find? j
      rw [find?_inserted_insertKey, find?_inserted_insertKey]
      exact insertKey_local hab
    | staff j => exact hab
    | challenge j => exact hab
    | session j => exact hab
  · cases l with
    | link j =>
      show db.links.find? j = (db.links.inserted row).find? j
      rw [find?_inserted_insertKey]
      exact insertKey_other (fun h => hl (congrArg StaffLock.link h.symm))
    | staff j => exact rfl
    | challenge j => exact rfl
    | session j => exact rfl

theorem writesRow_addSession (row : StaffSessionRow) :
    WritesRow (.session row.id) (StaffDb.addSession row) := by
  refine ⟨fun l a b hab => ?_, fun l hl db => ?_⟩
  · cases l with
    | session j =>
      show (a.sessions.inserted row).find? j = (b.sessions.inserted row).find? j
      rw [find?_inserted_insertKey, find?_inserted_insertKey]
      exact insertKey_local hab
    | staff j => exact hab
    | challenge j => exact hab
    | link j => exact hab
  · cases l with
    | session j =>
      show db.sessions.find? j = (db.sessions.inserted row).find? j
      rw [find?_inserted_insertKey]
      exact insertKey_other (fun h => hl (congrArg StaffLock.session h.symm))
    | staff j => exact rfl
    | challenge j => exact rfl
    | link j => exact rfl

end Writes

/-! ### Lookups after a write -/

section Lookups

variable {b : StaffDb} {x : StaffId}

theorem find?_setSession {id : StaffSessionId} {f : StaffSessionRow → StaffSessionRow}
    (hf : ∀ r, (f r).id = r.id) (j : StaffSessionId) : (b.setSession id f).sessions.find? j =
      if id = j then (b.sessions.find? j).map f else b.sessions.find? j :=
  Table.find?_modified hf id j

theorem opens_setChallenge {id : ChallengeId} {f : StaffLoginChallengeRow → StaffLoginChallengeRow}
    (hf : ∀ r, (f r).id = r.id) (hclosed : ∀ r, b.challenges.find? id = some r → (f r).status.isOpen =
      false) :
    (b.setChallenge id f).opens x (.challenge id) = false := by
  show ((b.challenges.modified id f).find? id).any _ = false
  rw [Table.find?_modified hf, if_pos rfl]
  cases hr : b.challenges.find? id with
  | none => rfl
  | some r => simp [hclosed r hr]

theorem opens_setLink {id : LinkId} {f : StaffLoginLinkRow → StaffLoginLinkRow}
    (hf : ∀ r, (f r).id = r.id) (hclosed : ∀ r, (f r).status ≠ .issued) :
    (b.setLink id f).opens x (.link id) = false := by
  show ((b.links.modified id f).find? id).any _ = false
  rw [Table.find?_modified hf, if_pos rfl]
  cases b.links.find? id with
  | none => rfl
  | some r => simp [hclosed r]

/-- A row that matches is among the ids selected. -/
theorem mem_ids {ρ : Type} [Keyed ρ ℕ] {t : Table ρ} {p : ρ → Bool} {k : ℕ} (h : (t.find? k).any p = true) :
    k ∈ (t.rows.filter p).map key := by
  cases hr : t.find? k with
  | none =>
    rw [hr] at h
    cases h
  | some r =>
    rw [hr] at h
    exact List.mem_map.mpr ⟨r, List.mem_filter.mpr ⟨Table.mem_of_find? hr, h⟩, Table.key_of_find? hr⟩

end Lookups

/-! ### What a write keeps -/

section Kept

variable {pending : Option StaffId} {held : List (StaffLock × LockMode)} {a b c : StaffDb} {l : StaffLock}

/-- A write that opens nothing, starts no session and leaves the accounts. -/
structure Narrows (b c : StaffDb) : Prop where
  kept : RowsKept b c
  staff : c.staff = b.staff
  ways : ∀ id w, c.opens id w = true → b.opens id w = true
  sessions : ∀ id r', c.sessions.find? id = some r' → ∃ r, b.sessions.find? id = some r ∧ KeptSession r r'

theorem ClosedIfDisabled.narrows {id : StaffId} (h : b.ClosedIfDisabled id) (hn : Narrows b c) :
    c.ClosedIfDisabled id := by
  intro r hr hdisabled
  rw [hn.staff] at hr
  obtain ⟨hways, hsessions⟩ := h r hr hdisabled
  refine ⟨fun w => ?_, fun i r' hr' hs => ?_⟩
  · cases hw : c.opens id w with
    | false => rfl
    | true => exact (hn.ways id w hw).symm.trans (hways w)
  · obtain ⟨r₀, hr₀, hstaff, hexpires, hrevoked⟩ := hn.sessions i r' hr'
    rcases hsessions i r₀ hr₀ (hstaff.symm.trans hs) with h | h
    · exact .inl (hrevoked h)
    · exact .inr (hexpires ▸ h)

/-- A row is written under its lock. -/
theorem Good.rows_write {f : StaffDb → StaffDb} (h : Good pending held a b) (hf : WritesRow l f) :
    ∀ l', (l', .exclusive) ∉ (l, LockMode.exclusive) :: held → SameRow l' a (f b) := by
  intro l' hl'
  refine (h.rows l' (fun hmem => hl' (List.mem_cons_of_mem _ hmem))).trans (hf.others l' (fun heq => ?_) b)
  exact hl' (heq ▸ List.mem_cons_self)

theorem Good.narrows {f : StaffDb → StaffDb} (h : Good pending held a b) (hf : WritesRow l f)
    (hn : Narrows b (f b)) : Good pending ((l, .exclusive) :: held) a (f b) := by
  refine ⟨h.rows_write hf, h.kept.trans hn.kept, fun id hid => ?_, fun id =>
    ⟨fun i j hi hj => ?_, fun i j hi hj => ?_⟩,
    fun id hid => ClosedIfDisabled.narrows (h.disabled id hid) hn⟩
  · have hfresh := h.fresh id (fun hmem => hid (List.mem_cons_of_mem _ hmem))
    refine ⟨fun w hw => hfresh.ways w (hn.ways id w hw), fun i r' hr' hs => ?_⟩
    obtain ⟨r₀, hr₀, hstaff, -⟩ := hn.sessions i r' hr'
    rcases hfresh.sessions i r₀ hr₀ (hstaff.symm.trans hs) with hold | ⟨w, hopen, hclosed⟩
    · exact .inl hold
    · refine .inr ⟨w, hopen, ?_⟩
      cases hw : (f b).opens id w with
      | false => rfl
      | true => exact (hn.ways id w hw).symm.trans hclosed
  · exact (h.one id).1 i j (hn.ways id _ hi) (hn.ways id _ hj)
  · exact (h.one id).2 i j (hn.ways id _ hi) (hn.ways id _ hj)

theorem narrows_setChallenge {id : ChallengeId} {f : StaffLoginChallengeRow → StaffLoginChallengeRow}
    (hid : ∀ r, (f r).id = r.id) (hstaff : ∀ r, (f r).staffId = r.staffId)
    (hexpires : ∀ r, (f r).expiresAt = r.expiresAt)
    (hopen : ∀ r, b.challenges.find? id = some r → (f r).status.isOpen = true → r.status.isOpen = true) :
    Narrows b (b.setChallenge id f) := by
  have hfind : ∀ j, (b.setChallenge id f).challenges.find? j =
      if id = j then (b.challenges.find? j).map f else b.challenges.find? j := Table.find?_modified hid id
  refine ⟨⟨fun j r hr hd => ⟨r, hr, hd⟩, fun j r hr => ?_, (RowsKept.refl b).links,
    (RowsKept.refl b).sessions⟩, rfl,
    fun x w hw => ?_, fun j r hr => ⟨r, hr, rfl, rfl, fun h => h⟩⟩
  · rw [hfind, hr]
    split
    · rename_i hj
      exact ⟨f r, rfl, hstaff r, hexpires r, hopen r (hj ▸ hr)⟩
    · exact ⟨r, rfl, rfl, rfl, fun ho => ho⟩
  · cases w with
    | link j => exact hw
    | challenge j =>
      unfold opens at hw ⊢
      dsimp only at hw ⊢
      rw [hfind] at hw
      split at hw
      · rename_i hj
        cases hr : b.challenges.find? j with
        | none =>
          rw [hr] at hw
          cases hw
        | some r =>
          rw [hr] at hw
          simp only [Option.map_some, Option.any_some, Bool.and_eq_true, decide_eq_true_eq, hstaff] at hw ⊢
          exact ⟨hw.1, hopen r (hj ▸ hr) hw.2⟩
      · exact hw

theorem narrows_setLink {id : LinkId} {f : StaffLoginLinkRow → StaffLoginLinkRow}
    (hid : ∀ r, (f r).id = r.id) (hstaff : ∀ r, (f r).staffId = r.staffId)
    (hopen : ∀ r, (f r).status = .issued → r.status = .issued) : Narrows b (b.setLink id f) := by
  have hfind : ∀ j, (b.setLink id f).links.find? j =
      if id = j then (b.links.find? j).map f else b.links.find? j := Table.find?_modified hid id
  refine ⟨⟨fun j r hr hd => ⟨r, hr, hd⟩, (RowsKept.refl b).challenges, fun j r hr => ?_,
    (RowsKept.refl b).sessions⟩, rfl,
    fun x w hw => ?_, fun j r hr => ⟨r, hr, rfl, rfl, fun h => h⟩⟩
  · rw [hfind, hr]
    split
    · exact ⟨f r, rfl, hstaff r, hopen r⟩
    · exact ⟨r, rfl, rfl, fun ho => ho⟩
  · cases w with
    | challenge j => exact hw
    | link j =>
      unfold opens at hw ⊢
      dsimp only at hw ⊢
      rw [hfind] at hw
      split at hw
      · cases hr : b.links.find? j with
        | none =>
          rw [hr] at hw
          cases hw
        | some r =>
          rw [hr] at hw
          simp only [Option.map_some, Option.any_some, Bool.and_eq_true, decide_eq_true_eq, hstaff] at hw ⊢
          exact ⟨hw.1, hopen r hw.2⟩
      · exact hw

theorem narrows_setSession {id : StaffSessionId} {f : StaffSessionRow → StaffSessionRow}
    (hid : ∀ r, (f r).id = r.id) (hkept : ∀ r, KeptSession r (f r)) : Narrows b (b.setSession id f) := by
  have hfind : ∀ j, (b.setSession id f).sessions.find? j =
      if id = j then (b.sessions.find? j).map f else b.sessions.find? j := Table.find?_modified hid id
  refine ⟨⟨fun j r hr hd => ⟨r, hr, hd⟩, (RowsKept.refl b).challenges, (RowsKept.refl b).links,
    fun j r hr => ?_⟩, rfl,
    fun x w hw => ?_, fun j r' hr' => ?_⟩
  · rw [hfind, hr]
    split
    · exact ⟨f r, rfl, hkept r⟩
    · exact ⟨r, rfl, rfl, rfl, fun h => h⟩
  · cases w <;> exact hw
  · rw [hfind] at hr'
    split at hr'
    · obtain ⟨r, hr, rfl⟩ := Option.map_eq_some_iff.mp hr'
      exact ⟨r, hr, hkept r⟩
    · exact ⟨r', hr', rfl, rfl, fun h => h⟩

end Kept

section Additions

variable {pending : Option StaffId} {held : List (StaffLock × LockMode)} {a b c : StaffDb} {l : StaffLock}
  {x : StaffId} {f : StaffDb → StaffDb}

/-- A write that opens one way in for a member. -/
structure Widens (x : StaffId) (way : WayIn) (b c : StaffDb) : Prop where
  kept : RowsKept b c
  staff : c.staff = b.staff
  sessions : c.sessions = b.sessions
  others : ∀ id ≠ x, ∀ w, c.opens id w = b.opens id w
  own : ∀ w, c.opens x w = true → w = way ∨ b.opens x w = true

/-- No way in of this kind is open. -/
def NoneLike (x : StaffId) (way : WayIn) (b : StaffDb) : Prop :=
  match way with
  | .challenge _ => ∀ i, b.opens x (.challenge i) = false
  | .link _ => ∀ i, b.opens x (.link i) = false

/-- The account's row, as the transaction has it, is active. -/
def ActiveRow (x : StaffId) (b : StaffDb) : Prop := ∀ r, b.staff.find? x = some r → r.status = .active

theorem ActiveRow.closedIfDisabled (h : ActiveRow x b) : b.ClosedIfDisabled x := by
  intro r hr hdisabled
  rw [h r hr] at hdisabled
  cases hdisabled

theorem Good.widens {way : WayIn} (h : Good pending held a b) (hf : WritesRow l f)
    (hw : Widens x way b (f b))
    (hlock : (.staff x, .exclusive) ∈ held) (hnone : NoneLike x way b) (hactive : ActiveRow x b) :
    Good pending ((l, .exclusive) :: held) a (f b) := by
  refine ⟨h.rows_write hf, h.kept.trans hw.kept, fun id hid => ?_, fun id =>
    ⟨fun i j hi hj => ?_, fun i j hi hj => ?_⟩,
    fun id hid => ?_⟩
  · have hne : id ≠ x := fun heq => hid (List.mem_cons_of_mem _ (heq ▸ hlock))
    have hfresh := h.fresh id (fun hmem => hid (List.mem_cons_of_mem _ hmem))
    refine ⟨fun w hopen => hfresh.ways w ((hw.others id hne w).symm.trans hopen), fun i r hr hs => ?_⟩
    rw [hw.sessions] at hr
    rcases hfresh.sessions i r hr hs with hold | ⟨w, hopen, hclosed⟩
    · exact .inl hold
    · exact .inr ⟨w, hopen, (hw.others id hne w).trans hclosed⟩
  · by_cases hne : id = x
    · subst hne
      cases way with
      | challenge k =>
        have hnew : ∀ i, (f b).opens id (.challenge i) = true → i = k := by
          intro i hi
          rcases hw.own _ hi with heq | hopen
          · exact WayIn.challenge.inj heq
          · exact absurd ((hnone i).symm.trans hopen) Bool.false_ne_true
        exact (hnew i hi).trans (hnew j hj).symm
      | link k =>
        have hold : ∀ i, (f b).opens id (.challenge i) = true → b.opens id (.challenge i) = true := by
          intro i hi
          rcases hw.own _ hi with heq | hopen
          · cases heq
          · exact hopen
        exact (h.one id).1 i j (hold i hi) (hold j hj)
    · rw [hw.others id hne] at hi hj
      exact (h.one id).1 i j hi hj
  · by_cases hne : id = x
    · subst hne
      cases way with
      | link k =>
        have hnew : ∀ i, (f b).opens id (.link i) = true → i = k := by
          intro i hi
          rcases hw.own _ hi with heq | hopen
          · exact WayIn.link.inj heq
          · exact absurd ((hnone i).symm.trans hopen) Bool.false_ne_true
        exact (hnew i hi).trans (hnew j hj).symm
      | challenge k =>
        have hold : ∀ i, (f b).opens id (.link i) = true → b.opens id (.link i) = true := by
          intro i hi
          rcases hw.own _ hi with heq | hopen
          · cases heq
          · exact hopen
        exact (h.one id).2 i j (hold i hi) (hold j hj)
    · rw [hw.others id hne] at hi hj
      exact (h.one id).2 i j hi hj
  · intro r hr hdisabled
    rw [hw.staff] at hr
    by_cases hne : id = x
    · subst hne
      rw [hactive r hr] at hdisabled
      cases hdisabled
    · obtain ⟨hways, hsessions⟩ := h.disabled id hid r hr hdisabled
      exact ⟨fun w => (hw.others id hne w).trans (hways w), fun i r' hr' =>
        hsessions i r' (hw.sessions ▸ hr')⟩

theorem widens_addChallenge (row : StaffLoginChallengeRow) (hfree : b.challenges.find? row.id = none) :
    Widens row.staffId (.challenge row.id) b (b.addChallenge row) := by
  have hfind : ∀ j, (b.addChallenge row).challenges.find? j =
      if row.id = j then some row else b.challenges.find? j := Table.find?_inserted hfree
  refine ⟨⟨fun j r hr hd => ⟨r, hr, hd⟩, fun j r hr => ⟨r, ?_, rfl, rfl, fun ho => ho⟩, (RowsKept.refl b).links,
    (RowsKept.refl b).sessions⟩, rfl, rfl, fun id hne w => ?_, fun w hw => ?_⟩
  · rw [hfind, if_neg (fun h => by rw [h, hr] at hfree; cases hfree)]
    exact hr
  · cases w with
    | link j => rfl
    | challenge j =>
      unfold opens
      dsimp only
      rw [hfind]
      split
      · rename_i hj
        rw [← hj, hfree]
        simp [Ne.symm hne]
      · rfl
  · cases w with
    | link j => exact .inr hw
    | challenge j =>
      unfold opens at hw ⊢
      dsimp only at hw ⊢
      rw [hfind] at hw
      split at hw
      · rename_i hj
        exact .inl (congrArg WayIn.challenge hj.symm)
      · exact .inr hw

theorem widens_addLink (row : StaffLoginLinkRow) (hfree : b.links.find? row.id = none) :
    Widens row.staffId (.link row.id) b (b.addLink row) := by
  have hfind : ∀ j, (b.addLink row).links.find? j =
      if row.id = j then some row else b.links.find? j := Table.find?_inserted hfree
  refine ⟨⟨fun j r hr hd => ⟨r, hr, hd⟩, (RowsKept.refl b).challenges, fun j r hr =>
    ⟨r, ?_, rfl, fun ho => ho⟩,
    (RowsKept.refl b).sessions⟩, rfl, rfl, fun id hne w => ?_, fun w hw => ?_⟩
  · rw [hfind, if_neg (fun h => by rw [h, hr] at hfree; cases hfree)]
    exact hr
  · cases w with
    | challenge j => rfl
    | link j =>
      unfold opens
      dsimp only
      rw [hfind]
      split
      · rename_i hj
        rw [← hj, hfree]
        simp [Ne.symm hne]
      · rfl
  · cases w with
    | challenge j => exact .inr hw
    | link j =>
      unfold opens at hw ⊢
      dsimp only at hw ⊢
      rw [hfind] at hw
      split at hw
      · rename_i hj
        exact .inl (congrArg WayIn.link hj.symm)
      · exact .inr hw

/-- A session is started by closing a way in, of an account that is active. -/
theorem Good.addSession (h : Good pending held a b) {row : StaffSessionRow}
    (hfree : b.sessions.find? row.id = none) (hcaused : Caused row.staffId a b)
    (hactive : ActiveRow row.staffId b) :
    Good pending ((.session row.id, .exclusive) :: held) a (b.addSession row) := by
  have hfind : ∀ j, (b.addSession row).sessions.find? j =
      if row.id = j then some row else b.sessions.find? j := Table.find?_inserted hfree
  have hopens : ∀ id w, (b.addSession row).opens id w = b.opens id w := by
    intro id w
    cases w <;> rfl
  refine ⟨h.rows_write (writesRow_addSession row), h.kept.trans ⟨fun j r hr hd => ⟨r, hr, hd⟩,
    (RowsKept.refl b).challenges,
    (RowsKept.refl b).links, fun j r hr => ⟨r, ?_, rfl, rfl, fun h => h⟩⟩, fun id hid => ?_,
    fun id => ⟨(h.one id).1, (h.one id).2⟩, fun id hid r hr hdisabled => ?_⟩
  · rw [hfind, if_neg (fun heq => by rw [heq, hr] at hfree; cases hfree)]
    exact hr
  · have hfresh := h.fresh id (fun hmem => hid (List.mem_cons_of_mem _ hmem))
    refine ⟨fun w hw => hfresh.ways w ((hopens id w).symm.trans hw), fun j r hr hs => ?_⟩
    have hcause : Caused id a b → Caused id a (b.addSession row) := by
      rintro ⟨w, hopen, hclosed⟩
      exact ⟨w, hopen, (hopens id w).trans hclosed⟩
    rw [hfind] at hr
    split at hr
    · rw [← Option.some.inj hr] at hs
      exact .inr (hcause (hs ▸ hcaused))
    · rcases hfresh.sessions j r hr hs with hold | hcaused
      · exact .inl hold
      · exact .inr (hcause hcaused)
  · obtain ⟨hways, hsessions⟩ := h.disabled id hid r hr hdisabled
    refine ⟨fun w => (hopens id w).trans (hways w), fun j r' hr' hs => ?_⟩
    rw [hfind] at hr'
    split at hr'
    · rw [← Option.some.inj hr'] at hs
      rw [← hs] at hr
      rw [hactive r hr] at hdisabled
      cases hdisabled
    · exact hsessions j r' hr' hs

/-- The account's row is written: what stands of it is still to be said. -/
theorem Good.setStaff {g : StaffRow → StaffRow} (h : Good none held a b) (hid : ∀ r, (g r).id = r.id)
    (hstatus : ∀ r, r.status = .disabled → (g r).status = .disabled) :
    Good (some x) ((.staff x, .exclusive) :: held) a (b.setStaff x g) := by
  have hfind : ∀ j, (b.setStaff x g).staff.find? j =
      if x = j then (b.staff.find? j).map g else b.staff.find? j := Table.find?_modified hid x
  have hopens : ∀ id w, (b.setStaff x g).opens id w = b.opens id w := by
    intro id w
    cases w <;> rfl
  refine ⟨h.rows_write (writesRow_setStaff hid), h.kept.trans ⟨fun j r hr hd => ?_,
    (RowsKept.refl b).challenges,
    (RowsKept.refl b).links, (RowsKept.refl b).sessions⟩, fun id hheld => ?_, fun id =>
      ⟨(h.one id).1, (h.one id).2⟩,
    fun id hne r hr hdisabled => ?_⟩
  · rw [hfind, hr]
    split
    · exact ⟨g r, rfl, hstatus r hd⟩
    · exact ⟨r, rfl, hd⟩
  · have hfresh := h.fresh id (fun hmem => hheld (List.mem_cons_of_mem _ hmem))
    refine ⟨fun w hw => hfresh.ways w ((hopens id w).symm.trans hw), fun j r hr hs => ?_⟩
    rcases hfresh.sessions j r hr hs with hold | ⟨w, hopen, hclosed⟩
    · exact .inl hold
    · exact .inr ⟨w, hopen, (hopens id w).trans hclosed⟩
  · rw [hfind, if_neg (fun heq => hne (congrArg some heq))] at hr
    obtain ⟨hways, hsessions⟩ := h.disabled id (by simp) r hr hdisabled
    exact ⟨fun w => (hopens id w).trans (hways w), hsessions⟩

theorem Good.settled (h : Good (some x) held a b) (hclosed : b.ClosedIfDisabled x) :
    Good none held a b := by
  refine ⟨h.rows, h.kept, h.fresh, h.one, fun id _ => ?_⟩
  by_cases hid : id = x
  · exact hid ▸ hclosed
  · exact h.disabled id (fun heq => hid (Option.some.inj heq).symm)

end Additions

end Binarius
