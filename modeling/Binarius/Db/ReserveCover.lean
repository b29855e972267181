import Mathlib.Tactic
import Binarius.Db.Ledger

/-!
# Db.ReserveCover — the books cover every live reserve

* `Books.Inv.covers`: a live intent's user has its reserve, and no less a balance.
* `rejectIntent_total`: **a rejection of a live intent never throws**.
-/

namespace Binarius

open Lib

/-- **A live intent's reserve** is a part of its user's. -/
theorem Books.Inv.covers {b : Books} (hb : b.Inv) {id : IntentId} {row : TradeIntentRow}
    (hrow : b.intents.find? id = some row) (hlive : row.status.terminal = false) :
    ∃ user, b.users.find? row.userId = some user ∧ row.tokensReserved ≤ user.tokenReserved ∧
      row.tokensReserved ≤ user.tokenBalance := by
  have hmem := Table.mem_of_find? hrow
  obtain ⟨user, huser⟩ := hb.ownedIntents row hmem
  have huid : user.id = row.userId := Table.key_of_find? huser
  have hlives := hb.live user (Table.mem_of_find? huser)
  have hbounds := hb.bounds user (Table.mem_of_find? huser)
  have hnonneg : ∀ x ∈ b.intents.rows.map (Books.liveTokens user.id), (0 : ℤ) ≤ x := by
    intro x hx
    obtain ⟨r, hr, rfl⟩ := List.mem_map.mp hx
    unfold Books.liveTokens
    split_ifs with hown
    · exact (hb.holds r hr hown.2).le
    · exact le_refl 0
  have hle := List.single_le_sum hnonneg _ (List.mem_map_of_mem hmem)
  have hown : Books.liveTokens user.id row = row.tokensReserved := by
    unfold Books.liveTokens
    rw [if_pos ⟨huid.symm, hlive⟩]
  have hsum : row.tokensReserved ≤ user.tokenReserved := by
    rw [hlives, ← hown]
    exact hle
  exact ⟨user, huser, hsum, hsum.trans hbounds.2⟩

section Total

variable {now : UnixMs} {db : Db}

/-- A legal transition never throws. -/
theorem transitionIntent_total {o : TransitionOptions} (hlegal : canTransition o.fromStatus o.toStatus = true) :
    ∃ res db', (transitionIntent now o).run db = .ok (res, db') := by
  cases hf : db.find o.id with
  | none =>
    exact ⟨none, db, transitionIntent_eq_ok.mpr ⟨hlegal, .inr ⟨by simp [hf], rfl, rfl⟩⟩⟩
  | some row =>
    cases hadmits : o.admits row with
    | true =>
      exact ⟨_, _, transitionIntent_eq_ok.mpr ⟨hlegal, .inl ⟨row, hf, hadmits, rfl, rfl⟩⟩⟩
    | false =>
      refine ⟨none, db, transitionIntent_eq_ok.mpr ⟨hlegal, .inr ⟨fun row' hrow' => ?_, rfl, rfl⟩⟩⟩
      rw [hf] at hrow'
      rw [← Option.some.inj hrow']
      exact hadmits

/-- The reserve a user has can be released. -/
theorem releaseTokens_total {user : UserRow} {userId : UserId} {id : IntentId} {tokens : ℤ}
    (huser : db.users.find? userId = some user) (hle : tokens ≤ user.tokenReserved) :
    ∃ db', (releaseTokens userId id tokens).run db = .ok ((), db') := by
  obtain ⟨row', users, hupdate⟩ : ∃ row' users, db.users.updateAt userId
      (fun u => decide (tokens ≤ u.tokenReserved))
      (fun u => { u with tokenReserved := u.tokenReserved - tokens }) = some (row', users) :=
    ⟨_, _, Table.updateAt_eq_some.mpr ⟨user, huser, decide_eq_true hle, rfl, rfl⟩⟩
  simp only [releaseTokens, Tx.run_bind_eq_ok, DbTx.run_write_eq_ok, Tx.run_get_eq_ok,
    DbTx.run_demand_eq_ok, Tx.run_set_eq_ok]
  exact ⟨_, (), _, rfl, _, _, ⟨rfl, rfl⟩, (row', users), _, ⟨hupdate, rfl⟩, rfl⟩

/-- **A rejection of a live intent never throws.** -/
theorem rejectIntent_total (hb : db.books.Inv) {o : RejectIntentOptions}
    (hlegal : canTransition o.fromStatus .rejected = true) (hlive : o.fromStatus.terminal = false) :
    ∃ res db', (rejectIntent now o).run db = .ok (res, db') := by
  unfold rejectIntent
  cases hf : db.find o.id with
  | none =>
    refine ⟨none, db, Tx.run_bind_eq_ok.mpr ⟨db, db, Tx.run_get_eq_ok.mpr ⟨rfl, rfl⟩, ?_⟩⟩
    simp only [hf]
    rfl
  | some current =>
    by_cases hstatus : current.status = o.fromStatus
    · by_cases hversion : o.expectedVersion.any (· ≠ current.version) = true
      · refine ⟨none, db, Tx.run_bind_eq_ok.mpr ⟨db, db, Tx.run_get_eq_ok.mpr ⟨rfl, rfl⟩, ?_⟩⟩
        simp only [hf]
        rw [if_neg (not_not.mpr hstatus), if_pos hversion]
        rfl
      · obtain ⟨res, db₁, hrun⟩ := @transitionIntent_total now db
          { id := o.id, fromStatus := o.fromStatus, toStatus := .rejected
            expectedVersion := some current.version
            patch := { lastError := some (some o.reason), tokensReserved := some 0 }
            guard := o.guard } hlegal
        cases res with
        | none =>
          refine ⟨none, db₁, Tx.run_bind_eq_ok.mpr ⟨db, db, Tx.run_get_eq_ok.mpr ⟨rfl, rfl⟩, ?_⟩⟩
          simp only [hf]
          rw [if_neg (not_not.mpr hstatus), if_neg hversion]
          exact Tx.run_bind_eq_ok.mpr ⟨none, db₁, hrun, rfl⟩
        | some row' =>
          -- the books cover the reserve of the row as it was
          obtain ⟨row, hrow, -, -, -, rfl⟩ := transitionIntent_some hrun
          obtain ⟨user, huser, hle, -⟩ := @Books.Inv.covers _ hb _ current hf (by rw [hstatus]; exact hlive)
          obtain ⟨db₂, hrelease⟩ : ∃ db₂, (DbTx.onlyIf (0 < current.tokensReserved)
              (releaseTokens current.userId o.id current.tokensReserved)).run (db.setIntent row') =
                .ok ((), db₂) := by
            by_cases hpos : 0 < current.tokensReserved
            · obtain ⟨db₂, hrun₂⟩ := @releaseTokens_total (db.setIntent row') user current.userId o.id
                current.tokensReserved huser hle
              exact ⟨db₂, DbTx.run_onlyIf_eq_ok.mpr (.inl ⟨hpos, hrun₂⟩)⟩
            · exact ⟨_, DbTx.run_onlyIf_eq_ok.mpr (.inr ⟨hpos, rfl⟩)⟩
          refine ⟨some row', db₂, Tx.run_bind_eq_ok.mpr ⟨db, db, Tx.run_get_eq_ok.mpr ⟨rfl, rfl⟩, ?_⟩⟩
          simp only [hf]
          rw [if_neg (not_not.mpr hstatus), if_neg hversion]
          exact Tx.run_bind_eq_ok.mpr ⟨some row', _, hrun, Tx.run_bind_eq_ok.mpr ⟨(), db₂, hrelease, rfl⟩⟩
    · refine ⟨none, db, Tx.run_bind_eq_ok.mpr ⟨db, db, Tx.run_get_eq_ok.mpr ⟨rfl, rfl⟩, ?_⟩⟩
      simp only [hf]
      rw [if_pos hstatus]
      rfl

end Total

end Binarius
