import Mathlib.Tactic
import Binarius.Db.LinkRuns

/-!
# Db.SettlementOrder — one settlement an intent, one end of every order
(packages/db/src/trade-intent-ops.ts: `settleClosedTrades`)

* `SettledOnce`, `settledOnce`: **an intent is settled once at most**, by a statement that brings its trade.
* `settled_transfer`: what one run settled, another of the same answers and conclusions has settled too.
* `SameEnd.of_intents`: the intents decide the counters and the sums of the ledger.
* `settlement_order_free`: **the end of a run depends on what was answered and concluded alone.**
-/

namespace Binarius

open Lib Relation

namespace Settlements

variable {w₀ w : World}

/-! ## One settlement -/

/-- The trade a statement brings. -/
def Action.Brings (w : World) (trade : AccountId × String) : Action → Prop
  | settle j _ => ∃ first rest, (w.deliveries j).trades = first :: rest ∧
      trade = ((w.deliveries j).brokerAccountId, first.trade.id)
  | conclude _ id _ t => ∃ row, w.db.find id = some row ∧ trade = (row.brokerAccountId, t.id)
  | _ => False

/-- The statement settles the intent. -/
def Settles (w : World) (a : Action) (id : IntentId) : Prop :=
  ¬ w.db.Settled id ∧ (Settlements.act w a).db.Settled id

theorem act_settled (h : Inv w₀ w) (a : Action) {id : IntentId} (hs : w.db.Settled id) :
    (Settlements.act w a).db.Settled id := by
  cases a with
  | read j => exact hs
  | check j => exact hs
  | fail j => exact hs
  | settle j now =>
    show ((w.deliveries j).settle now w.db).1.Settled id
    rcases @SettleCall.settle_cases now w.db (w.deliveries j) h.books h.links (h.calls j) with
      hsame | ⟨_, _, _, -, -, -, ⟨db', hanswer, hstep, -⟩ | ⟨hmoved, -⟩⟩
    · rw [hsame]
      exact hs
    · rw [hanswer]
      exact hstep.settled hs
    · rw [hmoved]
      exact hs
  | conclude now i v trade =>
    unfold Settlements.act
    simp only
    split
    · rename_i r db' hrun
      obtain ⟨_, _, -, -, haccept, -, -, -, ⟨-, rfl⟩ | ⟨-, hsettle, -⟩⟩ :=
        concludeReconciled_writes h.books h.links hrun
      · exact haccept.settled hs
      · exact hsettle.settled (haccept.settled hs)
    · rename_i db' hrun
      obtain ⟨-, rfl⟩ | ⟨_, _, _, _, _, ⟨_, hsome, _⟩ | ⟨_, _, _, hsome, _⟩⟩ :=
        concludeReconciled_accepts hrun
      · exact hs
      · exact nomatch hsome
      · exact nomatch hsome
    · exact hs

theorem run_settled (h : Inv w₀ w) {id : IntentId} (hs : w.db.Settled id) (as : List Action) :
    (run Settlements.act w as).db.Settled id :=
  (run_induction (P := fun w' => Inv w₀ w' ∧ w'.db.Settled id) ⟨h, hs⟩
    (fun _ a hw => ⟨hw.1.act a, act_settled hw.1 a hw.2⟩) as).2

/-- **A settlement is of the trade the statement brings**, and consumes the intent's reserve. -/
theorem settles_with (h : Inv w₀ w) {a : Action} {id : IntentId} (hs : Settles w a id) :
    ∃ trade, a.Brings w trade ∧ SettlesWith w.db (Settlements.act w a).db id trade := by
  obtain ⟨hbefore, hafter⟩ := hs
  cases a with
  | read j => exact (hbefore hafter).elim
  | check j => exact (hbefore hafter).elim
  | fail j => exact (hbefore hafter).elim
  | settle j now =>
    change ((w.deliveries j).settle now w.db).1.Settled id at hafter
    rcases @SettleCall.settle_cases now w.db (w.deliveries j) h.books h.links (h.calls j) with
      hsame | ⟨i, trade, rest, -, htrades, -, ⟨db', hanswer, hstep, hsettles⟩ | ⟨hmoved, -⟩⟩
    · rw [hsame] at hafter
      exact (hbefore hafter).elim
    · have hdb : (Settlements.act w (.settle j now)).db = db' := by
        show ((w.deliveries j).settle now w.db).1 = db'
        rw [hanswer]
      rw [hanswer] at hafter
      obtain ⟨hothers, -⟩ := settles_find hstep hsettles
      by_cases hi : id = i
      · subst hi
        rw [hdb]
        exact ⟨_, ⟨trade, rest, htrades, rfl⟩, hsettles⟩
      · obtain ⟨r, hr, hrs⟩ := hafter
        rw [hothers id hi] at hr
        exact (hbefore ⟨r, hr, hrs⟩).elim
    · rw [hmoved] at hafter
      exact (hbefore hafter).elim
  | conclude now i v trade =>
    cases hrun : (concludeReconciled now i v trade).run w.db with
    | error e =>
      have hw : Settlements.act w (.conclude now i v trade) = w := by
        unfold Settlements.act
        simp only [hrun]
      rw [hw] at hafter
      exact (hbefore hafter).elim
    | ok result =>
      obtain ⟨res, db'⟩ := result
      cases res with
      | none =>
        obtain ⟨-, rfl⟩ | ⟨_, _, _, _, _, ⟨_, hsome, _⟩ | ⟨_, _, _, hsome, _⟩⟩ :=
          concludeReconciled_accepts hrun
        · have hw : (Settlements.act w (.conclude now i v trade)).db = w.db := by
            unfold Settlements.act
            simp only [hrun]
          rw [hw] at hafter
          exact (hbefore hafter).elim
        · exact nomatch hsome
        · exact nomatch hsome
      | some r =>
        have hw : (Settlements.act w (.conclude now i v trade)).db = db' := by
          unfold Settlements.act
          simp only [hrun]
        rw [hw] at hafter ⊢
        obtain ⟨row, db₁, hrow, -, -, ⟨accepted, haccepted, hstatus⟩, -, hothers, hcases⟩ :=
          concludeReconciled_writes h.books h.links hrun
        obtain ⟨settled, hsettled, hsettledStatus⟩ := hafter
        by_cases hi : id = i
        · subst hi
          rcases hcases with ⟨-, rfl⟩ | ⟨-, -, hsettles⟩
          · rw [← Option.some.inj (haccepted.symm.trans hsettled), hstatus] at hsettledStatus
            exact nomatch hsettledStatus
          · exact ⟨_, ⟨row, hrow, rfl⟩, hsettles⟩
        · rw [hothers id hi] at hsettled
          exact (hbefore ⟨settled, hsettled, hsettledStatus⟩).elim

/-- Each intent is settled once at most, with the trade that was brought, and its reserve consumed. -/
def SettledOnce (w₀ : World) (as : List Action) : Prop :=
  ∀ before a after id, as = before ++ a :: after → Settles (run Settlements.act w₀ before) a id →
    (∃ trade, a.Brings (run Settlements.act w₀ before) trade ∧
      SettlesWith (run Settlements.act w₀ before).db (run Settlements.act w₀ (before ++ [a])).db id trade) ∧
    ∀ between a' rest, after = between ++ a' :: rest →
      ¬ Settles (run Settlements.act w₀ (before ++ a :: between)) a' id

theorem settledOnce (h : Starts w₀) (as : List Action) : SettledOnce w₀ as := by
  rintro before a after id - hs
  have hinv := inv_run h before
  refine ⟨?_, fun between a' rest _ hagain => hagain.1 ?_⟩
  · rw [run_snoc]
    exact settles_with hinv hs
  · rw [run_append, run_cons]
    exact run_settled (hinv.act a) hs.2 between

/-! ## One end -/

/-- The trade has an answer. -/
def Answered (w : World) (trade : AccountId × String) : Prop :=
  ∃ j, (w.deliveries j).brokerAccountId = trade.1 ∧
    ∃ o ∈ (w.deliveries j).outcomes, o.brokerTradeId = trade.2

/-- No trade was answered as nobody's before the acceptance that links it. -/
def NotEarly (w : World) : Prop :=
  ∀ j tradeId, .notOurs tradeId ∈ (w.deliveries j).outcomes →
    ∀ id, ¬ w.db.LinkedTo ((w.deliveries j).brokerAccountId, tradeId) id

theorem linkedTo_unique {db : Db} {k : AccountId × String} {id id' : IntentId} (h : db.LinkedTo k id)
    (h' : db.LinkedTo k id') : id = id' := by
  obtain ⟨l, hl, hid⟩ := h
  obtain ⟨l', hl', hid'⟩ := h'
  rw [Option.some.inj (hl.symm.trans hl')] at hid
  exact Option.some.inj (hid.symm.trans hid')

/-- A trade linked and answered is settled. -/
theorem settled_of_answered (h : Inv w₀ w) (hearly : NotEarly w) {k : AccountId × String} {id : IntentId}
    (hlinked : w.db.LinkedTo k id) (hanswered : Answered w k) : w.db.Settled id := by
  obtain ⟨j, haccount, o, ho, htrade⟩ := hanswered
  have hk : ((w.deliveries j).brokerAccountId, o.brokerTradeId) = k := Prod.ext haccount htrade
  have hholds := (h.calls j).outcomes o ho
  rw [← hk] at hlinked
  cases o with
  | settled tradeId i =>
    rw [linkedTo_unique hlinked hholds.1]
    exact hholds.2
  | alreadySettled tradeId i =>
    rw [linkedTo_unique hlinked hholds.1]
    exact hholds.2
  | notOurs tradeId => exact (hearly j tradeId ho id hlinked).elim
  | intentNotAccepted tradeId i status => exact hholds.elim

variable {w₀' w' : World}

/-- **What one run settled, another of the same answers and conclusions has settled too.** -/
theorem settled_transfer (h : Inv w₀ w) (h' : Inv w₀' w') (hdb : w₀.db = w₀'.db)
    (hanswered : ∀ k, Answered w k → Answered w' k) (hconcluded : ∀ c ∈ w.conclusions, c ∈ w'.conclusions)
    (hearly : NotEarly w') {id : IntentId} (hs : w.db.Settled id) : w'.db.Settled id := by
  obtain ⟨r, hr, hrs⟩ := hs
  obtain ⟨r₀, hr₀, hprogress⟩ := h.since.progress id r hr
  have hr₀' : w₀'.db.find id = some r₀ := by rw [← hdb]; exact hr₀
  by_cases hstart : r₀.status = .settled
  · -- settled before the runs
    obtain ⟨r', hr'⟩ := h'.since.kept id r₀ hr₀'
    obtain ⟨r₁, hr₁, hprogress'⟩ := h'.since.progress id r' hr'
    obtain rfl := Option.some.inj (hr₀'.symm.trans hr₁)
    cases hprogress' with
    | same => exact ⟨r₀, hr', hstart⟩
    | accepted now hstatus => rw [hstart] at hstatus; exact nomatch hstatus
    | settled now hstatus => exact ⟨_, hr', rfl⟩
    | both now later hstatus => exact ⟨_, hr', rfl⟩
  · rcases h.cause id r₀ hr₀ hstart ⟨r, hr, hrs⟩ with ⟨trade, htrade, hclosed⟩ | ⟨j, tradeId, ho⟩
    · obtain ⟨_, _, _, _, hsettled⟩ := h'.concluded _ (hconcluded _ htrade)
      exact hsettled hclosed
    · have hlinked : w.db.LinkedTo ((w.deliveries j).brokerAccountId, tradeId) id :=
        ((h.calls j).outcomes _ ho).1
      refine settled_of_answered h' hearly ?_
        (hanswered ((w.deliveries j).brokerAccountId, tradeId) ⟨j, rfl, _, ho, rfl⟩)
      rcases h.since.of_linkedTo _ _ hlinked with hbefore | ⟨r₁, hr₁, hstatus⟩
      · exact h'.since.linkedTo _ _ (by rw [← hdb]; exact hbefore)
      · -- linked by the conclusion, which the other run has as well
        obtain ⟨trade, htrade⟩ := h.moved id r₁ r hr₁ hstatus hr (by rw [hrs]; simp)
        obtain ⟨r₂, hr₂, -, hlinked₂, -⟩ := h.concluded _ htrade
        obtain ⟨r₃, hr₃, -, hlinked₃, -⟩ := h'.concluded _ (hconcluded _ htrade)
        rw [← hdb] at hr₃
        obtain rfl := Option.some.inj (hr₂.symm.trans hr₃)
        rw [h.links.unique _ _ id hlinked hlinked₂]
        exact hlinked₃

/-- The ends of two runs: the intents but for the time of their last change, the counters, the ledger's sums. -/
structure SameEnd (db db' : Db) : Prop where
  intents : ∀ id, (db.find id).map TradeIntentRow.untimed = (db'.find id).map TradeIntentRow.untimed
  counters : ∀ userId, (db.users.find? userId).map (fun u => (u.tokenBalance, u.tokenReserved)) =
    (db'.users.find? userId).map (fun u => (u.tokenBalance, u.tokenReserved))
  balanceSum : ∀ userId,
    db.books.ledgerSum (·.balanceDelta) userId = db'.books.ledgerSum (·.balanceDelta) userId
  reservedSum : ∀ userId,
    db.books.ledgerSum (·.reservedDelta) userId = db'.books.ledgerSum (·.reservedDelta) userId

/-- A sum over the intents does not read the time of their last change. -/
theorem sum_untimed {t t' : Table TradeIntentRow} {g : TradeIntentRow → ℤ} (hg : ∀ r, g r = g r.untimed)
    (hkeys : t.rows.map TradeIntentRow.id = t'.rows.map TradeIntentRow.id)
    (hrows : ∀ id, (t.find? id).map TradeIntentRow.untimed = (t'.find? id).map TradeIntentRow.untimed) :
    t.sum g = t'.sum g := by
  have hlookup : ∀ u : Table TradeIntentRow, u.rows.map (fun r => some r.untimed) =
      (u.rows.map TradeIntentRow.id).map (fun id => (u.find? id).map TradeIntentRow.untimed) := by
    intro u
    rw [List.map_map]
    refine List.map_congr_left (fun r hr => ?_)
    show some r.untimed = (u.find? r.id).map TradeIntentRow.untimed
    rw [show u.find? r.id = some r from Table.find?_of_mem hr]
    rfl
  have hsome : t.rows.map (fun r => some r.untimed) = t'.rows.map (fun r => some r.untimed) := by
    rw [hlookup t, hlookup t', hkeys]
    exact List.map_congr_left (fun id _ => hrows id)
  have hvalues := congrArg (List.map (fun o : Option TradeIntentRow => (o.map g).getD 0)) hsome
  rw [List.map_map, List.map_map] at hvalues
  have hback : ∀ l : List TradeIntentRow,
      l.map ((fun o : Option TradeIntentRow => (o.map g).getD 0) ∘ fun r => some r.untimed) = l.map g :=
    fun l => List.map_congr_left (fun r _ => (hg r).symm)
  rw [hback, hback] at hvalues
  exact congrArg List.sum hvalues

/-- The intents decide the counters and the sums. -/
theorem SameEnd.of_intents {db₀ db db' : Db} (hb : db.books.Inv) (hb' : db'.books.Inv) (hs : Since db₀ db)
    (hs' : Since db₀ db')
    (hintents : ∀ id, (db.find id).map TradeIntentRow.untimed = (db'.find id).map TradeIntentRow.untimed) :
    SameEnd db db' := by
  have hlive : ∀ userId,
      db.tradeIntents.sum (Books.liveTokens userId) = db'.tradeIntents.sum (Books.liveTokens userId) :=
    fun userId => sum_untimed (fun _ => rfl) (hs.keys.trans hs'.keys.symm) hintents
  have hspare : ∀ userId, db.spare userId = db'.spare userId :=
    fun userId => (hs.spare userId).trans (hs'.spare userId).symm
  have hcounters : ∀ userId, (db.users.find? userId).map (fun u => (u.tokenBalance, u.tokenReserved)) =
      (db'.users.find? userId).map (fun u => (u.tokenBalance, u.tokenReserved)) := by
    intro userId
    have hsame := hspare userId
    unfold Db.spare at hsame
    cases hu : db.users.find? userId with
    | none =>
      rw [hu] at hsame
      cases hu' : db'.users.find? userId with
      | none => rfl
      | some u' => rw [hu'] at hsame; exact nomatch hsame
    | some u =>
      rw [hu] at hsame
      cases hu' : db'.users.find? userId with
      | none => rw [hu'] at hsame; exact nomatch hsame
      | some u' =>
        rw [hu'] at hsame
        have hdiff : u.tokenBalance - u.tokenReserved = u'.tokenBalance - u'.tokenReserved :=
          Option.some.inj hsame
        have hid : u.id = userId := Table.key_of_find? hu
        have hid' : u'.id = userId := Table.key_of_find? hu'
        have hreserved : u.tokenReserved = u'.tokenReserved := by
          have hl := hb.live u (Table.mem_of_find? hu)
          have hl' := hb'.live u' (Table.mem_of_find? hu')
          rw [hid] at hl
          rw [hid'] at hl'
          rw [hl, hl']
          exact hlive userId
        have hbalance : u.tokenBalance = u'.tokenBalance := by omega
        show some (u.tokenBalance, u.tokenReserved) = some (u'.tokenBalance, u'.tokenReserved)
        rw [hbalance, hreserved]
  -- a user's rows add up to the counter, and nobody else has rows
  have hsum : ∀ {b : Books} {column : TokenLedgerRow → ℤ} {counter : UserRow → ℤ} (_ : b.Inv)
      (_ : ∀ u ∈ b.users, counter u = b.ledgerSum column u.id) (userId : UserId),
      b.ledgerSum column userId = ((b.users.find? userId).map counter).getD 0 := by
    intro b column counter hbooks hcounter userId
    cases hu : b.users.find? userId with
    | none =>
      refine Books.ledgerSum_eq_zero (fun e he hown => ?_)
      obtain ⟨u, hfound⟩ := hbooks.owned e he
      rw [hown, hu] at hfound
      exact nomatch hfound
    | some u =>
      have hid : u.id = userId := Table.key_of_find? hu
      rw [← hid]
      exact (hcounter u (Table.mem_of_find? hu)).symm
  refine ⟨hintents, hcounters, fun userId => ?_, fun userId => ?_⟩
  · have hfirst := congrArg (Option.map Prod.fst) (hcounters userId)
    rw [Option.map_map, Option.map_map] at hfirst
    rw [hsum hb hb.balance, hsum hb' hb'.balance]
    exact congrArg (fun o => Option.getD o 0) hfirst
  · have hsecond := congrArg (Option.map Prod.snd) (hcounters userId)
    rw [Option.map_map, Option.map_map] at hsecond
    rw [hsum hb hb.reserved, hsum hb' hb'.reserved]
    exact congrArg (fun o => Option.getD o 0) hsecond

/-- A concluded intent is not under reconciliation any more. -/
theorem Inv.concluded_status (h : Inv w₀ w) {id : IntentId} {trade : BrokerTrade} {r : TradeIntentRow}
    (htrade : (id, trade) ∈ w.conclusions) (hr : w.db.find id = some r) : r.status ≠ .reconciling := by
  obtain ⟨_, _, _, ⟨l, hl, hid⟩, _⟩ := h.concluded _ htrade
  obtain ⟨row, hrow, hcase⟩ := h.links.status _ l id hl hid
  obtain rfl := Option.some.inj (hr.symm.trans hrow)
  rcases hcase with ⟨haccepted, -⟩ | ⟨hsettled, -⟩
  · rw [haccepted]
    simp
  · rw [hsettled]
    simp

/-- An intent stands the same in two runs of the same answers and conclusions. -/
theorem same_intent (h : Inv w₀ w) (h' : Inv w₀' w') (hdb : w₀.db = w₀'.db)
    (hsettled : ∀ id, w.db.Settled id ↔ w'.db.Settled id)
    (hconcluded : ∀ c, c ∈ w.conclusions ↔ c ∈ w'.conclusions) (id : IntentId) :
    (w.db.find id).map TradeIntentRow.untimed = (w'.db.find id).map TradeIntentRow.untimed := by
  have hiff := hsettled id
  cases hr : w.db.find id with
  | none =>
    cases hr' : w'.db.find id with
    | none => rfl
    | some r' =>
      obtain ⟨r₀, hr₀, -⟩ := h'.since.progress id r' hr'
      rw [← hdb] at hr₀
      obtain ⟨r, hr₁⟩ := h.since.kept id r₀ hr₀
      exact nomatch hr.symm.trans hr₁
  | some r =>
    obtain ⟨r₀, hr₀, hprogress⟩ := h.since.progress id r hr
    have hr₀' : w₀'.db.find id = some r₀ := by rw [← hdb]; exact hr₀
    obtain ⟨r', hr'⟩ := h'.since.kept id r₀ hr₀'
    obtain ⟨r₁, hr₁, hprogress'⟩ := h'.since.progress id r' hr'
    obtain rfl := Option.some.inj (hr₀'.symm.trans hr₁)
    have hstatus : r.status = .settled ↔ r'.status = .settled := by
      constructor
      · intro hs
        obtain ⟨r₂, hr₂, hs₂⟩ := hiff.mp ⟨r, hr, hs⟩
        rw [Option.some.inj (hr'.symm.trans hr₂)]
        exact hs₂
      · intro hs
        obtain ⟨r₂, hr₂, hs₂⟩ := hiff.mpr ⟨r', hr', hs⟩
        rw [Option.some.inj (hr.symm.trans hr₂)]
        exact hs₂
    -- an intent reconciled in one run is reconciled in the other
    have hmoved : r₀.status = .reconciling → (r.status = .reconciling ↔ r'.status = .reconciling) := by
      intro hstart
      constructor
      · intro hs
        by_contra hne
        obtain ⟨trade, htrade⟩ := h'.moved id r₀ r' hr₀' hstart hr' hne
        exact h.concluded_status ((hconcluded _).mpr htrade) hr hs
      · intro hs
        by_contra hne
        obtain ⟨trade, htrade⟩ := h.moved id r₀ r hr₀ hstart hr hne
        exact h'.concluded_status ((hconcluded _).mp htrade) hr' hs
    have heq : r.status = r'.status := by
      cases hprogress with
      | same =>
        cases hprogress' with
        | same => rfl
        | accepted now hs => exact (hmoved hs).mp hs ▸ hs
        | settled now hs => exact hstatus.mpr rfl
        | both now later hs => exact hstatus.mpr rfl
      | accepted now hs =>
        cases hprogress' with
        | same => exact ((hmoved hs).mpr hs).trans hs.symm
        | accepted now' _ => rfl
        | settled now' _ => exact hstatus.mpr rfl
        | both now' later _ => exact hstatus.mpr rfl
      | settled now hs =>
        cases hprogress' with
        | same => exact (hstatus.mp rfl).symm
        | accepted now' hs' => exact (hstatus.mp rfl).symm
        | settled now' _ => rfl
        | both now' later _ => rfl
      | both now later hs =>
        cases hprogress' with
        | same => exact (hstatus.mp rfl).symm
        | accepted now' hs' => exact (hstatus.mp rfl).symm
        | settled now' _ => rfl
        | both now' later' _ => rfl
    show some r.untimed = (w'.db.find id).map TradeIntentRow.untimed
    rw [hr']
    exact congrArg some (hprogress.untimed_eq hprogress' heq)

/-- **One settlement, one end.**  In any run an intent is settled once at most, with a trade that was brought and
its reserve consumed; and two runs from one database end alike when they answered the same trades and reached the
same conclusions, and answered no trade before the acceptance that links it. -/
theorem settlement_order_free {w₀ w₀' : World} (hstart : Starts w₀) (hstart' : Starts w₀')
    (hdb : w₀.db = w₀'.db)
    (as as' : List Action) (hearly : NotEarly (run Settlements.act w₀ as))
    (hearly' : NotEarly (run Settlements.act w₀' as'))
    (hanswered : ∀ k, Answered (run Settlements.act w₀ as) k ↔ Answered (run Settlements.act w₀' as') k)
    (hconcluded : ∀ c, c ∈ (run Settlements.act w₀ as).conclusions ↔
      c ∈ (run Settlements.act w₀' as').conclusions) :
    SettledOnce w₀ as ∧ SameEnd (run Settlements.act w₀ as).db (run Settlements.act w₀' as').db := by
  have h := inv_run hstart as
  have h' := inv_run hstart' as'
  refine ⟨settledOnce hstart as, ?_⟩
  have hsettled : ∀ id,
      (run Settlements.act w₀ as).db.Settled id ↔ (run Settlements.act w₀' as').db.Settled id :=
    fun id => ⟨settled_transfer h h' hdb (fun k => (hanswered k).mp) (fun c => (hconcluded c).mp) hearly',
      settled_transfer h' h hdb.symm (fun k => (hanswered k).mpr) (fun c => (hconcluded c).mpr) hearly⟩
  have hs' := h'.since
  rw [← hdb] at hs'
  exact .of_intents h.books h'.books h.since hs' (same_intent h h' hdb hsettled hconcluded)

/-! ### One reconciled intent and its trade, delivered twice -/

/-- The call a statement is of. -/
def Action.call : Action → Option ℕ
  | read j => some j
  | settle j _ => some j
  | check j => some j
  | fail j => some j
  | conclude _ _ _ _ => none

theorem act_other (w : World) {a : Action} {j : ℕ} (h : a.call ≠ some j) :
    (Settlements.act w a).deliveries j = w.deliveries j := by
  have hne : ∀ i, Action.call a = some i → j ≠ i := fun i hi hj => h (hj ▸ hi)
  cases a with
  | read i => exact Function.update_of_ne (hne i rfl) _ _
  | settle i now => exact Function.update_of_ne (hne i rfl) _ _
  | check i => exact Function.update_of_ne (hne i rfl) _ _
  | fail i => exact Function.update_of_ne (hne i rfl) _ _
  | conclude now id v trade =>
    unfold Settlements.act
    simp only
    split <;> rfl

theorem run_other (w : World) {as : List Action} {j : ℕ} (h : ∀ a ∈ as, a.call ≠ some j) :
    (run Settlements.act w as).deliveries j = w.deliveries j := by
  induction as generalizing w with
  | nil => rfl
  | cons a as ih =>
    rw [run_cons, ih _ (fun b hb => h b (List.mem_cons_of_mem _ hb)), act_other w (h a List.mem_cons_self)]

theorem act_account (w : World) (a : Action) (j : ℕ) :
    ((Settlements.act w a).deliveries j).brokerAccountId = (w.deliveries j).brokerAccountId := by
  have hput : ∀ i d, d.brokerAccountId = (w.deliveries i).brokerAccountId →
      ((w.put i d).deliveries j).brokerAccountId = (w.deliveries j).brokerAccountId := by
    intro i d hd
    rw [put_deliveries]
    split_ifs with hj
    · rw [hj, hd]
    · rfl
  cases a with
  | read i =>
    refine hput i _ ?_
    unfold SettleCall.read
    split
    · split <;> rfl
    · rfl
  | settle i now =>
    refine hput i _ ?_
    show ((w.deliveries i).settle now w.db).2.brokerAccountId = _
    unfold SettleCall.settle
    split
    · split <;> rfl
    · rfl
  | check i =>
    refine hput i _ ?_
    unfold SettleCall.check
    split
    · split <;> rfl
    · rfl
  | fail i => exact hput i _ rfl
  | conclude now id v trade =>
    unfold Settlements.act
    simp only
    split <;> rfl

theorem run_account (w : World) (as : List Action) (j : ℕ) :
    ((run Settlements.act w as).deliveries j).brokerAccountId = (w.deliveries j).brokerAccountId := by
  induction as generalizing w with
  | nil => rfl
  | cons a as ih => rw [run_cons, ih, act_account]

/-- A trade taken, unclear, and under reconciliation. -/
def reconciledTrade : List Txn := twoTrades.take 3 ++
  [.markIntentUnknown 30 { id := 5, expectedVersion := some 4, reason := .executorTimeout },
   .startReconciling 40 5 5]

def openedTrade : BrokerTrade where
  id := "t"
  assetId := 3
  action := .up
  amount := ['1']
  openTimestamp := 25
  isDemo := true
  closed := none

def closedTrade : ClosedTrade where
  trade := { openedTrade with closed := some { closeTimestamp := 55, profit := ['2'] } }
  close := { closeTimestamp := 55, profit := ['2'] }
  closed_eq := rfl

/-- Two calls with the one trade. -/
def twoDeliveries : World where
  db := commitAll oneUserDb reconciledTrade
  deliveries := fun j => { brokerAccountId := 7, trades := if j < 2 then [closedTrade] else [] }
  conclusions := []

theorem reconciledTrade_keeps : RunOk Txn.commit Txn.KeepsTrades oneUserDb reconciledTrade := by
  refine ⟨?_, ?_, ?_, ?_, ?_, trivial⟩ <;> exact fun _ h => nomatch h

theorem twoDeliveries_starts : Starts twoDeliveries :=
  starts_commitAll ⟨by decide, rfl, rfl⟩ rfl reconciledTrade_keeps _ (fun _ => ⟨rfl, rfl⟩)

/-- The conclusion, then the two calls one after the other. -/
def oneByOne : List Action := [.conclude 50 5 6 openedTrade, .read 0, .settle 0 60, .read 1]

/-- The conclusion, then the two calls at once. -/
def atOnce : List Action :=
  [.conclude 50 5 6 openedTrade, .read 0, .read 1, .settle 1 60, .settle 0 70, .check 0]

/-- The delivery read before the conclusion. -/
def readEarly : List Action := [.read 0, .conclude 50 5 6 openedTrade, .settle 0 60]

theorem calls_twoDeliveries {as : List Action} {outcome₀ outcome₁ : ClosedTradeOutcome}
    (hcalls : ∀ a ∈ as, a.call = none ∨ a.call = some 0 ∨ a.call = some 1)
    (h₀ : ((run Settlements.act twoDeliveries as).deliveries 0).outcomes = [outcome₀])
    (h₁ : ((run Settlements.act twoDeliveries as).deliveries 1).outcomes = [outcome₁]) (j : ℕ)
    {o : ClosedTradeOutcome} (ho : o ∈ ((run Settlements.act twoDeliveries as).deliveries j).outcomes) :
    o = outcome₀ ∨ o = outcome₁ := by
  match j with
  | 0 =>
    rw [h₀] at ho
    exact .inl (List.mem_singleton.mp ho)
  | 1 =>
    rw [h₁] at ho
    exact .inr (List.mem_singleton.mp ho)
  | j + 2 =>
    rw [run_other twoDeliveries (fun a ha hj => ?_)] at ho
    · exact absurd ho List.not_mem_nil
    · rcases hcalls a ha with hnone | hzero | hone
      · rw [hnone] at hj
        exact nomatch hj
      · rw [hzero] at hj
        have := Option.some.inj hj
        omega
      · rw [hone] at hj
        have := Option.some.inj hj
        omega

theorem settlement_order_free_twice :
    SettledOnce twoDeliveries oneByOne ∧
      SameEnd (run Settlements.act twoDeliveries oneByOne).db
        (run Settlements.act twoDeliveries atOnce).db := by
  have hone := @calls_twoDeliveries oneByOne (.settled "t" 5) (.alreadySettled "t" 5) (by decide +kernel)
    (by decide +kernel) (by decide +kernel)
  have honce := @calls_twoDeliveries atOnce (.alreadySettled "t" 5) (.settled "t" 5) (by decide +kernel)
    (by decide +kernel) (by decide +kernel)
  have hconclusions : (run Settlements.act twoDeliveries oneByOne).conclusions =
      (run Settlements.act twoDeliveries atOnce).conclusions := by decide +kernel
  have haccounts : ∀ as j, ((run Settlements.act twoDeliveries as).deliveries j).brokerAccountId = 7 :=
    fun as j => run_account twoDeliveries as j
  refine settlement_order_free twoDeliveries_starts twoDeliveries_starts rfl oneByOne atOnce
    (fun j tradeId ho => ?_)
    (fun j tradeId ho => ?_) (fun k => ?_) (fun c => by rw [hconclusions])
  · rcases hone j ho with h | h
    · exact nomatch h
    · exact nomatch h
  · rcases honce j ho with h | h
    · exact nomatch h
    · exact nomatch h
  · constructor
    · rintro ⟨j, haccount, o, ho, htrade⟩
      refine ⟨0, ?_, .alreadySettled "t" 5, by decide +kernel, ?_⟩
      · rw [haccounts, ← haccount, haccounts]
      · rw [← htrade]
        rcases hone j ho with h | h
        · rw [h]
          rfl
        · rw [h]
    · rintro ⟨j, haccount, o, ho, htrade⟩
      refine ⟨0, ?_, .settled "t" 5, by decide +kernel, ?_⟩
      · rw [haccounts, ← haccount, haccounts]
      · rw [← htrade]
        rcases honce j ho with h | h
        · rw [h]
          rfl
        · rw [h]

/-- A delivery read before the acceptance finds nobody's trade, and the intent stays accepted: the same statements
in another order settle it. -/
theorem settlement_order_matters :
    Starts twoDeliveries ∧ readEarly.Perm (oneByOne.take 3) ∧
      (run Settlements.act twoDeliveries readEarly).conclusions =
        (run Settlements.act twoDeliveries (oneByOne.take 3)).conclusions ∧
      ((run Settlements.act twoDeliveries readEarly).deliveries 0).outcomes = [.notOurs "t"] ∧
      ((run Settlements.act twoDeliveries (oneByOne.take 3)).deliveries 0).outcomes = [.settled "t" 5] ∧
      ((run Settlements.act twoDeliveries readEarly).db.find 5).map (·.status) = some .accepted ∧
      ((run Settlements.act twoDeliveries (oneByOne.take 3)).db.find 5).map (·.status) = some .settled := by
  refine ⟨twoDeliveries_starts, .swap _ _ _, ?_, ?_, ?_, ?_, ?_⟩
  · decide +kernel
  · decide +kernel
  · decide +kernel
  · decide +kernel
  · decide +kernel

end Settlements

end Binarius
