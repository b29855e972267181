import Mathlib.Tactic
import Binarius.Lib.Log
import Binarius.Db.SessionNoticeOps
import Binarius.Backend.SessionWorld

/-!
# Backend.SessionNotices — one session's notices over every interleaving
(apps/backend/src/trading/session-notices.ts)

Any number of senders claim, release and record, each of their statements where it comes; a claimant that
crashed or does not know its send's outcome acts no more.  Beside them the session's trades, its stop,
the bot's status and summary requests and the waiting message's statements.  The lists of claims are
ghosts: nothing the code does reads them.

* `NoticeWorld.Inv`: the claims not released are of the trades below the cursor, one each; a claimed open
  block is the marked one or its trade is over; a closed session is complete; the summary's mark is of its
  one unreleased claim.
* `NoticeWorld.Inv.act`, `NoticeWorld.Inv.run`: **every action keeps it.**
-/

namespace Binarius

open Lib

/-- What the statements read of a session that is there. -/
def Db.sessionFacts (db : Db) (s : SessionId) (waitingForSignal : Bool) : Option SessionFacts :=
  (db.tradingSessions.find? s).map (fun session => {
    status := session.status
    settled := db.settledTrades s
    openTrade := db.openTrade s
    finished := db.sessionFinished s
    waitingForSignal })

/-- What a claim is of: the trade at a place of the cursor's order, or the open block of an intent. -/
inductive NoticeTarget
  | trade (claimed : ℕ) (id : IntentId)
  | openBlock (id : IntentId) (settled : ℕ)
  deriving DecidableEq, Repr

/-- The intent whose result or open block a claim is of. -/
inductive NoticeSubject
  | result (id : IntentId)
  | block (id : IntentId)
  deriving DecidableEq, Repr

def NoticeTarget.subject : NoticeTarget → NoticeSubject
  | .trade _ id => .result id
  | .openBlock id _ => .block id

/-- A claimant's one answer to its send: it put the claim back, or recorded its message, or was refused. -/
inductive ClaimState
  | held
  | released
  | recorded
  | refused
  deriving DecidableEq, Repr

structure NoticeClaim where
  target : NoticeTarget
  state : ClaimState
  deriving DecidableEq, Repr

inductive SummaryWriter
  | bot
  | close
  | fallback
  deriving DecidableEq, Repr

structure SummaryClaim where
  writer : SummaryWriter
  claimedAt : DbTime
  state : ClaimState
  deriving DecidableEq, Repr

/-- A claim of this subject that its claimant has not released. -/
def NoticeClaim.holds (subject : NoticeSubject) (c : NoticeClaim) : Prop :=
  c.state ≠ .released ∧ c.target.subject = subject

def SummaryClaim.holds (c : SummaryClaim) : Prop := c.state ≠ .released

structure NoticeWorld where
  trading : SessionWorld
  row : SessionNotices
  claims : List NoticeClaim
  summaries : List SummaryClaim

inductive NoticeAct
  /-- a step of the trading side; the session's own stop is `stop` -/
  | trading (a : SessionAct)
  | stop (reason : TradingSessionStopReason) (waitingMessageId : Option MessageId)
  | claimTrade (now : DbTime) (claimed graceMs : ℕ)
  | claimOpen (now : DbTime) (intentId : IntentId) (settled graceMs : ℕ)
  /-- a claimant's release, after a send that certainly was not delivered -/
  | release (n : ℕ)
  /-- a claimant's record of its new message, after the send answered, however late -/
  | record (n : ℕ) (messageId : MessageId) (fromTrade : ℕ)
  | claimFinal (now : DbTime) (closeSummary : Bool)
  | claimSummary (now : DbTime) (owned : Bool)
  | claimFallback (now : DbTime)
  | releaseFallback (n : ℕ)
  | claimWaiting (waitingForSignal : Bool)
  | recordWaiting (slot messageId : MessageId)
  | releaseWaiting (slot : MessageId)
  | clearWaiting (messageId : MessageId)
  | recordStatus (owned : Bool) (messageId : MessageId)
  | forgetStatus (owned : Bool) (messageId : MessageId)

/-- The time and the grace a claim reads the hold with. -/
def NoticeAct.hold : NoticeAct → Option (DbTime × ℕ)
  | .claimTrade now _ graceMs => some (now, graceMs)
  | .claimOpen now _ _ graceMs => some (now, graceMs)
  | _ => none

namespace NoticeWorld

def start (db : Db) (clock : UnixMs) (startedAt : DbTime) : NoticeWorld where
  trading := .start db clock
  row := .created startedAt
  claims := []
  summaries := []

def db (w : NoticeWorld) : Db := w.trading.steps.db

/-- The row after a statement. -/
def write (w : NoticeWorld) (row : Option SessionNotices) : NoticeWorld :=
  { w with row := row.getD w.row }

/-- A claim that won is a new claim. -/
def claim (w : NoticeWorld) (target : NoticeTarget) : Option SessionNotices → NoticeWorld
  | some row => { w with row := row, claims := w.claims ++ [⟨target, .held⟩] }
  | none => w

/-- A claimant's answer: refused when its statement wrote nothing. -/
def answer (w : NoticeWorld) (n : ℕ) (state : ClaimState) : Option SessionNotices → NoticeWorld
  | some row => { w with row := row, claims := w.claims.modify n (fun c => { c with state := state }) }
  | none => { w with claims := w.claims.modify n (fun c => { c with state := .refused }) }

def summarise (w : NoticeWorld) (writer : SummaryWriter) (now : DbTime) :
    Option SessionNotices → NoticeWorld
  | some row => { w with row := row, summaries := w.summaries ++ [⟨writer, now, .held⟩] }
  | none => w

/-- The statement of a claim's release. -/
def releaseRow (row : SessionNotices) : NoticeTarget → Option SessionNotices
  | .trade claimed _ => row.releaseSessionTradeNotice claimed
  | .openBlock id _ => row.releaseSessionOpenNotice id

/-- The statement of a claim's record: the cursor right after a trade, or at the open block's place. -/
def recordRow (row : SessionNotices) (messageId : MessageId) (fromTrade : ℕ) :
    NoticeTarget → Option SessionNotices
  | .trade claimed _ => row.recordSessionCycleMessage (claimed + 1) none messageId fromTrade
  | .openBlock id settled => row.recordSessionCycleMessage settled (some id) messageId fromTrade

def act (s : SessionId) (w : NoticeWorld) : NoticeAct → NoticeWorld
  | .trading (.step (.stopSession id)) =>
    if id = s then w else { w with trading := w.trading.act (.step (.stopSession id)) }
  | .trading a => { w with trading := w.trading.act a }
  | .stop reason waitingMessageId =>
    if (w.db.tradingSessions.find? s).any (fun session => session.status = .active) then
      { w with
        trading := w.trading.act (.step (.stopSession s))
        row := w.row.stopped reason waitingMessageId }
    else w
  | .claimTrade now claimed graceMs =>
    match w.db.sessionFacts s false with
    | some facts =>
      match facts.settled[claimed]? with
      | some id => w.claim (.trade claimed id) (w.row.claimSessionTradeNotice facts now claimed graceMs)
      | none => w
    | none => w
  | .claimOpen now intentId settled graceMs =>
    match w.db.sessionFacts s false with
    | some facts =>
      w.claim (.openBlock intentId settled) (w.row.claimSessionOpenNotice facts now intentId settled graceMs)
    | none => w
  | .release n =>
    match w.claims[n]? with
    | some ⟨target, .held⟩ => w.answer n .released (releaseRow w.row target)
    | _ => w
  | .record n messageId fromTrade =>
    match w.claims[n]? with
    | some ⟨target, .held⟩ => w.answer n .recorded (recordRow w.row messageId fromTrade target)
    | _ => w
  | .claimFinal now closeSummary =>
    match w.db.sessionFacts s false with
    | some facts =>
      if closeSummary then w.summarise .close now (w.row.claimSessionFinalNotice facts now true)
      else w.write (w.row.claimSessionFinalNotice facts now false)
    | none => w
  | .claimSummary now owned =>
    match w.db.sessionFacts s false with
    | some facts => w.summarise .bot now (w.row.claimSessionSummary facts now owned)
    | none => w
  | .claimFallback now =>
    match w.db.sessionFacts s false with
    | some facts => w.summarise .fallback now (w.row.claimSummaryFallback facts now)
    | none => w
  | .releaseFallback n =>
    match w.summaries[n]? with
    | some ⟨.fallback, claimedAt, .held⟩ =>
      match w.row.releaseSummaryFallback claimedAt with
      | some row =>
        { w with row := row, summaries := w.summaries.modify n (fun c => { c with state := .released }) }
      | none => { w with summaries := w.summaries.modify n (fun c => { c with state := .refused }) }
    | _ => w
  | .claimWaiting waitingForSignal =>
    match w.db.sessionFacts s waitingForSignal with
    | some facts => w.write (w.row.claimSessionWaiting facts)
    | none => w
  | .recordWaiting slot messageId =>
    match w.db.sessionFacts s false with
    | some facts => w.write (w.row.recordSessionWaitingMessage facts slot messageId)
    | none => w
  | .releaseWaiting slot => w.write (w.row.releaseSessionWaiting slot)
  | .clearWaiting messageId => w.write (w.row.clearSessionWaitingMessage messageId)
  | .recordStatus owned messageId =>
    match w.db.sessionFacts s false with
    | some _ => w.write (w.row.recordSessionStatusMessage owned messageId)
    | none => w
  | .forgetStatus owned messageId => w.write (w.row.forgetSessionStatusMessage owned messageId)

/-! ## The invariant -/

/-- An intent of the session whose trade is over. -/
def TradeOver (db : Db) (s : SessionId) (id : IntentId) : Prop :=
  ∃ r ∈ db.sessionIntents s, r.id = id ∧ r.status.terminal = true

/-- Nothing moves any more: finished, every settled trade claimed, no waiting message. -/
structure Complete (db : Db) (s : SessionId) (row : SessionNotices) : Prop where
  finished : db.sessionFinished s = true
  claimed : row.notifiedTrades = (db.settledTrades s).length
  waiting : row.waitingMessageId = none

structure Inv (s : SessionId) (w : NoticeWorld) : Prop where
  trading : w.trading.Inv
  cursor : w.row.notifiedTrades ≤ (w.db.settledTrades s).length
  /-- a trade's claim is of the trade at its place, below the cursor until it is released -/
  trades : ∀ (n : ℕ) (c : NoticeClaim), w.claims[n]? = some c → ∀ k id, c.target = .trade k id →
    (w.db.settledTrades s)[k]? = some id ∧ (c.state ≠ .released → k < w.row.notifiedTrades)
  /-- every trade below the cursor is claimed -/
  covered : ∀ k < w.row.notifiedTrades, ∃ (n : ℕ) (c : NoticeClaim) (id : IntentId),
    w.claims[n]? = some c ∧ c.target = .trade k id ∧ c.state ≠ .released
  /-- a claimed open block is the marked one until it is released or its trade is over -/
  blocks : ∀ (n : ℕ) (c : NoticeClaim), w.claims[n]? = some c → ∀ id k, c.target = .openBlock id k →
    c.state ≠ .released → w.row.openNoticeIntentId = some id ∨ TradeOver w.db s id
  marked : ∀ id, w.row.openNoticeIntentId = some id → ∃ r ∈ w.db.sessionIntents s, r.id = id
  single : ∀ subject, AtMostOne (NoticeClaim.holds subject) w.claims
  closed : w.row.finalNoticeSentAt ≠ none → Complete w.db s w.row
  summary : w.row.summarySentAt ≠ none → w.row.finalNoticeSentAt ≠ none
  claimedSummary : w.summaries ≠ [] → w.row.finalNoticeSentAt ≠ none
  summaryMark : ∀ (n : ℕ) (c : SummaryClaim), w.summaries[n]? = some c → c.holds →
    w.row.summarySentAt = some c.claimedAt
  summarySingle : AtMostOne SummaryClaim.holds w.summaries

variable {s : SessionId} {w : NoticeWorld}

theorem settledTrades_nodup {db : Db} (hdb : SessionTrades db) (s : SessionId) : (db.settledTrades s).Nodup := by
  rw [hdb.settledTrades_eq, List.nodup_reverse]
  have hids : (db.tradeIntents.rows.map TradeIntentRow.id).Nodup := db.tradeIntents.nodup
  have hsub : ((db.sessionIntents s).filter db.isSettledTrade).Sublist db.tradeIntents.rows :=
    List.filter_sublist.trans List.filter_sublist
  exact hids.sublist (hsub.map _)

theorem Inv.start (s : SessionId) (db : Db) (clock : UnixMs) (startedAt : DbTime) :
    (NoticeWorld.start db clock startedAt).Inv s where
  trading := .start db clock
  cursor := Nat.zero_le _
  trades := fun _ _ h => nomatch h
  covered := fun _ h => absurd h (Nat.not_lt_zero _)
  blocks := fun _ _ h => nomatch h
  marked := fun _ h => nomatch h
  single := fun _ => .nil
  closed := fun h => absurd rfl h
  summary := fun h => absurd rfl h
  claimedSummary := fun h => absurd rfl h
  summaryMark := fun _ _ h => nomatch h
  summarySingle := .nil

/-! ## The steps -/

theorem TradeOver.step {db db' : Db} (h : SessionWorld.TradesStep db db') {id : IntentId}
    (hover : TradeOver db s id) : TradeOver db' s id := by
  obtain ⟨r, hr, hid, hterm⟩ := hover
  exact ⟨r, h.terminal s r hr hterm, hid, hterm⟩

theorem Complete.step {db db' : Db} (h : SessionWorld.TradesStep db db') {row : SessionNotices}
    (hc : Complete db s row) : Complete db' s row := by
  obtain ⟨hfin, hsettled⟩ := h.finished s hc.finished
  exact ⟨hfin, by rw [hsettled]; exact hc.claimed, hc.waiting⟩

/-- A step of the trading side. -/
theorem Inv.trade (hw : w.Inv s) (a : SessionAct) : ({ w with trading := w.trading.act a } : NoticeWorld).Inv s := by
  obtain ⟨htrading, hstep⟩ := hw.trading.act a
  have hbegins := hstep.settled s
  exact {
    trading := htrading
    cursor := hw.cursor.trans hbegins.length_le
    trades := fun n c hc k id htarget => by
      obtain ⟨hid, hbelow⟩ := hw.trades n c hc k id htarget
      exact ⟨getElem?_of_longer hbegins hid, hbelow⟩
    covered := hw.covered
    blocks := fun n c hc id k htarget hstate => by
      rcases hw.blocks n c hc id k htarget hstate with hmark | hover
      · exact .inl hmark
      · exact .inr (hover.step hstep)
    marked := fun id hmark => by
      obtain ⟨r, hr, hid⟩ := hw.marked id hmark
      obtain ⟨r', hr', hid'⟩ := hstep.kept s r hr
      exact ⟨r', hr', hid'.trans hid⟩
    single := hw.single
    closed := fun hfinal => (hw.closed hfinal).step hstep
    summary := hw.summary
    claimedSummary := hw.claimedSummary
    summaryMark := hw.summaryMark
    summarySingle := hw.summarySingle }

/-- A statement that writes neither the cursor, nor the block's mark, nor the two closing marks. -/
theorem Inv.setRow (hw : w.Inv s) {row : SessionNotices} (hcursor : row.notifiedTrades = w.row.notifiedTrades)
    (hblock : row.openNoticeIntentId = w.row.openNoticeIntentId)
    (hfinal : row.finalNoticeSentAt = w.row.finalNoticeSentAt)
    (hsummary : row.summarySentAt = w.row.summarySentAt)
    (hwaiting : w.row.finalNoticeSentAt ≠ none → row.waitingMessageId = none) :
    ({ w with row := row } : NoticeWorld).Inv s := by
  exact {
    trading := hw.trading
    cursor := hcursor.trans_le hw.cursor
    trades := fun n c hc k id htarget => by
      obtain ⟨hid, hbelow⟩ := hw.trades n c hc k id htarget
      exact ⟨hid, fun hstate => (hbelow hstate).trans_eq hcursor.symm⟩
    covered := fun k hk => hw.covered k (hk.trans_eq hcursor)
    blocks := fun n c hc id k htarget hstate => by
      rw [hblock]
      exact hw.blocks n c hc id k htarget hstate
    marked := fun id hmark => hw.marked id (hblock.symm.trans hmark)
    single := hw.single
    closed := fun h => by
      have hold : w.row.finalNoticeSentAt ≠ none := fun hnone => h (hfinal.trans hnone)
      have hc := hw.closed hold
      exact ⟨hc.finished, hcursor.trans hc.claimed, hwaiting hold⟩
    summary := fun h => by
      rw [hfinal]
      exact hw.summary (fun hnone => h (hsummary.trans hnone))
    claimedSummary := fun h => by
      rw [hfinal]
      exact hw.claimedSummary h
    summaryMark := fun n c hc hstate => hsummary.trans (hw.summaryMark n c hc hstate)
    summarySingle := hw.summarySingle }

theorem sessionFacts_some {db : Db} {b : Bool} {facts : SessionFacts} (h : db.sessionFacts s b = some facts) :
    facts.settled = db.settledTrades s ∧ facts.openTrade = db.openTrade s ∧
      facts.finished = db.sessionFinished s ∧
      ∃ session, db.tradingSessions.find? s = some session ∧ facts.status = session.status := by
  obtain ⟨session, hfind, rfl⟩ := Option.map_eq_some_iff.mp h
  exact ⟨rfl, rfl, rfl, session, hfind, rfl⟩

/-- The claim of the cursor's next trade. -/
theorem Inv.claimTrade (hw : w.Inv s) {facts : SessionFacts} {now : DbTime} {claimed graceMs : ℕ}
    {id : IntentId} {row : SessionNotices} (hfacts : facts.settled = w.db.settledTrades s)
    (hid : (w.db.settledTrades s)[claimed]? = some id)
    (h : w.row.claimSessionTradeNotice facts now claimed graceMs = some row) :
    ({ w with row := row, claims := w.claims ++ [⟨.trade claimed id, .held⟩] } : NoticeWorld).Inv s := by
  obtain ⟨hcursor, hfinal, hlt, _, rfl⟩ := SessionNotices.claimSessionTradeNotice_some h
  rw [hfacts] at hlt
  exact {
    trading := hw.trading
    cursor := hlt
    trades := fun n c hc k id' htarget => by
      rcases getElem?_snoc.mp hc with hc | ⟨_, rfl⟩
      · obtain ⟨hid', hbelow⟩ := hw.trades n c hc k id' htarget
        refine ⟨hid', fun hstate => ?_⟩
        have hk := hbelow hstate
        show k < claimed + 1
        omega
      · obtain ⟨rfl, rfl⟩ := NoticeTarget.trade.inj htarget
        exact ⟨hid, fun _ => Nat.lt_succ_self _⟩
    covered := fun k hk => by
      rcases Nat.lt_succ_iff_lt_or_eq.mp hk with hlt' | rfl
      · obtain ⟨n, c, id', hc, hrest⟩ := hw.covered k (hlt'.trans_eq hcursor.symm)
        exact ⟨n, c, id', getElem?_snoc.mpr (.inl hc), hrest⟩
      · exact ⟨_, _, id, getElem?_snoc.mpr (.inr ⟨rfl, rfl⟩), rfl, nofun⟩
    blocks := fun n c hc id' k htarget hstate => by
      rcases getElem?_snoc.mp hc with hc | ⟨_, rfl⟩
      · exact hw.blocks n c hc id' k htarget hstate
      · exact nomatch htarget
    marked := hw.marked
    single := fun subject => by
      refine (hw.single subject).snoc (fun hnew n c hc hold => ?_)
      -- an unreleased claim of the trade stands at its place, which the cursor has not passed
      obtain ⟨hstate, hsubject⟩ := hold
      have hsame : c.target.subject = .result id := hsubject.trans hnew.2.symm
      cases htarget : c.target with
      | trade k id' =>
        rw [htarget] at hsame
        obtain rfl : id' = id := NoticeSubject.result.inj hsame
        obtain ⟨hid', hbelow⟩ := hw.trades n c hc k id' htarget
        have hk : k < w.row.notifiedTrades := hbelow hstate
        have hnodup := settledTrades_nodup hw.trading.trades s
        have hkc := (List.getElem?_inj (List.getElem?_eq_some_iff.mp hid').1 hnodup).mp (hid'.trans hid.symm)
        omega
      | openBlock id' k =>
        rw [htarget] at hsame
        exact nomatch hsame
    closed := fun hne => absurd hfinal hne
    summary := hw.summary
    claimedSummary := hw.claimedSummary
    summaryMark := hw.summaryMark
    summarySingle := hw.summarySingle }

/-- The claim of the open trade's block. -/
theorem Inv.claimOpen (hw : w.Inv s) {facts : SessionFacts} {now : DbTime} {settled graceMs : ℕ}
    {id : IntentId} {row : SessionNotices} (hfacts : facts.openTrade = w.db.openTrade s)
    (h : w.row.claimSessionOpenNotice facts now id settled graceMs = some row) :
    ({ w with row := row, claims := w.claims ++ [⟨.openBlock id settled, .held⟩] } : NoticeWorld).Inv s := by
  obtain ⟨hunmarked, hfinal, _, _, hopen, _, rfl⟩ := SessionNotices.claimSessionOpenNotice_some h
  rw [hfacts] at hopen
  obtain ⟨r, hr, hrid, haccepted⟩ := SessionTrades.openTrade_some hopen
  have hlive : r.status.terminal = false := by
    rw [haccepted]
    rfl
  obtain ⟨rest, hrows⟩ : ∃ rest, w.db.sessionIntents s = r :: rest :=
    hw.trading.trades.newest_of_live hr hlive
  have hnotover : ¬ TradeOver w.db s id := by
    rintro ⟨x, hx, hxid, hterm⟩
    have hxr : x = r := Table.eq_of_key (List.mem_of_mem_filter hx) (List.mem_of_mem_filter hr)
      (hxid.trans hrid.symm)
    rw [hxr, hlive] at hterm
    exact nomatch hterm
  -- another marked intent of the session is older than the open one, so its trade is over
  have hover : ∀ id', w.row.openNoticeIntentId = some id' → TradeOver w.db s id' := by
    intro id' hmark
    obtain ⟨x, hx, hxid⟩ := hw.marked id' hmark
    refine ⟨x, hx, hxid, ?_⟩
    rw [hrows] at hx
    rcases List.mem_cons.mp hx with rfl | htail
    · exact absurd (hmark.trans (congrArg some (hxid.symm.trans hrid))) hunmarked
    · refine hw.trading.trades.tail s x ?_
      show x ∈ (w.db.sessionIntents s).tail
      rw [hrows]
      exact htail
  exact {
    trading := hw.trading
    cursor := hw.cursor
    trades := fun n c hc k id' htarget => by
      rcases getElem?_snoc.mp hc with hc | ⟨_, rfl⟩
      · exact hw.trades n c hc k id' htarget
      · exact nomatch htarget
    covered := fun k hk => by
      obtain ⟨n, c, id', hc, hrest⟩ := hw.covered k hk
      exact ⟨n, c, id', getElem?_snoc.mpr (.inl hc), hrest⟩
    blocks := fun n c hc id' k htarget hstate => by
      rcases getElem?_snoc.mp hc with hc | ⟨_, rfl⟩
      · rcases hw.blocks n c hc id' k htarget hstate with hmark | hover'
        · exact .inr (hover id' hmark)
        · exact .inr hover'
      · obtain ⟨rfl, _⟩ := NoticeTarget.openBlock.inj htarget
        exact .inl rfl
    marked := fun id' hmark => by
      obtain rfl : id = id' := Option.some.inj hmark
      exact ⟨r, hr, hrid⟩
    single := fun subject => by
      refine (hw.single subject).snoc (fun hnew n c hc hold => ?_)
      -- an unreleased claim of the block is the marked one, or its trade is over: neither is claimed
      obtain ⟨hstate, hsubject⟩ := hold
      have hsame : c.target.subject = .block id := hsubject.trans hnew.2.symm
      cases htarget : c.target with
      | trade k id' =>
        rw [htarget] at hsame
        exact nomatch hsame
      | openBlock id' k =>
        rw [htarget] at hsame
        obtain rfl : id' = id := NoticeSubject.block.inj hsame
        rcases hw.blocks n c hc id' k htarget hstate with hmark | hover'
        · exact hunmarked hmark
        · exact hnotover hover'
    closed := fun hne => absurd hfinal hne
    summary := hw.summary
    claimedSummary := hw.claimedSummary
    summaryMark := hw.summaryMark
    summarySingle := hw.summarySingle }

/-- A claim after its claimant answered: of the same target, and unreleased only if it was, unless the
answer is a release of this claim. -/
theorem claims_back {n : ℕ} {c : NoticeClaim} {state : ClaimState} (hc : w.claims[n]? = some c)
    (hheld : c.state = .held) {m : ℕ} {x : NoticeClaim}
    (hx : (w.claims.modify n (fun c => { c with state := state }))[m]? = some x) :
    ∃ y, w.claims[m]? = some y ∧ y.target = x.target ∧
      (x.state ≠ .released → y.state ≠ .released ∧ (m = n → state ≠ .released)) := by
  rcases getElem?_modify_some hx with ⟨rfl, y, hy, rfl⟩ | ⟨hne, hx⟩
  · obtain rfl : c = y := Option.some.inj (hc.symm.trans hy)
    refine ⟨c, hc, rfl, fun hstate => ⟨?_, fun _ => hstate⟩⟩
    rw [hheld]
    simp
  · exact ⟨x, hx, rfl, fun hstate => ⟨hstate, fun h => absurd h.symm hne⟩⟩

theorem single_mark (hw : w.Inv s) {n : ℕ} {c : NoticeClaim} (state : ClaimState)
    (hc : w.claims[n]? = some c) (hheld : c.state = .held) (subject : NoticeSubject) :
    AtMostOne (NoticeClaim.holds subject) (w.claims.modify n (fun c => { c with state := state })) := by
  intro i j x y hx hy hpx hpy
  obtain ⟨x', hx', htx, hsx⟩ := claims_back hc hheld hx
  obtain ⟨y', hy', hty, hsy⟩ := claims_back hc hheld hy
  refine hw.single subject i j x' y' hx' hy' ⟨(hsx hpx.1).1, ?_⟩ ⟨(hsy hpy.1).1, ?_⟩
  · rw [htx]
    exact hpx.2
  · rw [hty]
    exact hpy.2

/-- A claimant's answer other than a release. -/
theorem Inv.mark (hw : w.Inv s) {n : ℕ} {c : NoticeClaim} (state : ClaimState)
    (hc : w.claims[n]? = some c) (hheld : c.state = .held) (hstate : state ≠ .released) :
    ({ w with claims := w.claims.modify n (fun c => { c with state := state }) } : NoticeWorld).Inv s := by
  exact {
    trading := hw.trading
    cursor := hw.cursor
    trades := fun m x hx k id htarget => by
      obtain ⟨y, hy, hty, hsy⟩ := claims_back hc hheld hx
      obtain ⟨hid, hbelow⟩ := hw.trades m y hy k id (hty.trans htarget)
      exact ⟨hid, fun hstate => hbelow (hsy hstate).1⟩
    covered := fun k hk => by
      obtain ⟨m, x, id, hx, htarget, hxstate⟩ := hw.covered k hk
      by_cases hm : n = m
      · subst hm
        exact ⟨n, _, id, getElem?_modify_self hx, htarget, hstate⟩
      · exact ⟨m, x, id, getElem?_modify_other hm hx, htarget, hxstate⟩
    blocks := fun m x hx id k htarget hstate => by
      obtain ⟨y, hy, hty, hsy⟩ := claims_back hc hheld hx
      exact hw.blocks m y hy id k (hty.trans htarget) (hsy hstate).1
    marked := hw.marked
    single := single_mark hw state hc hheld
    closed := hw.closed
    summary := hw.summary
    claimedSummary := hw.claimedSummary
    summaryMark := hw.summaryMark
    summarySingle := hw.summarySingle }

/-- A claimant puts its trade back: every other unreleased claim stands below it. -/
theorem Inv.releaseTrade (hw : w.Inv s) {n k : ℕ} {id : IntentId} {row : SessionNotices}
    (hc : w.claims[n]? = some ⟨.trade k id, .held⟩) (h : w.row.releaseSessionTradeNotice k = some row) :
    ({ w with row := row, claims := w.claims.modify n (fun c => { c with state := .released }) } :
      NoticeWorld).Inv s := by
  obtain ⟨hcursor, hfinal, rfl⟩ := SessionNotices.releaseSessionTradeNotice_some h
  obtain ⟨hid, _⟩ := hw.trades n _ hc k id rfl
  have hcount := hw.cursor
  exact {
    trading := hw.trading
    cursor := by
      show k ≤ (w.db.settledTrades s).length
      omega
    trades := fun m x hx k' id' htarget => by
      obtain ⟨y, hy, hty, hsy⟩ := claims_back hc rfl hx
      obtain ⟨hid', hbelow⟩ := hw.trades m y hy k' id' (hty.trans htarget)
      refine ⟨hid', fun hstate => ?_⟩
      obtain ⟨hystate, hne⟩ := hsy hstate
      have hk := hbelow hystate
      show k' < k
      have hother : k' ≠ k := by
        rintro rfl
        obtain rfl : id' = id := Option.some.inj (hid'.symm.trans hid)
        have hmn : m = n := hw.single (.result id') m n y _ hy hc
          ⟨hystate, by rw [hty, htarget]; rfl⟩ ⟨by simp, rfl⟩
        exact hne hmn rfl
      omega
    covered := fun k' hk => by
      have hlt : k' < k := hk
      obtain ⟨m, x, id', hx, htarget, hxstate⟩ := hw.covered k' (by omega)
      have hm : n ≠ m := by
        rintro rfl
        obtain rfl := Option.some.inj (hc.symm.trans hx)
        have hkk : k = k' := (NoticeTarget.trade.inj htarget).1
        omega
      exact ⟨m, x, id', getElem?_modify_other hm hx, htarget, hxstate⟩
    blocks := fun m x hx id' k' htarget hstate => by
      obtain ⟨y, hy, hty, hsy⟩ := claims_back hc rfl hx
      exact hw.blocks m y hy id' k' (hty.trans htarget) (hsy hstate).1
    marked := hw.marked
    single := single_mark hw .released hc rfl
    closed := fun hne => absurd hfinal hne
    summary := hw.summary
    claimedSummary := hw.claimedSummary
    summaryMark := hw.summaryMark
    summarySingle := hw.summarySingle }

/-- A claimant puts its open block back. -/
theorem Inv.releaseBlock (hw : w.Inv s) {n k : ℕ} {id : IntentId} {row : SessionNotices}
    (hc : w.claims[n]? = some ⟨.openBlock id k, .held⟩) (h : w.row.releaseSessionOpenNotice id = some row) :
    ({ w with row := row, claims := w.claims.modify n (fun c => { c with state := .released }) } :
      NoticeWorld).Inv s := by
  obtain ⟨hmark, rfl⟩ := SessionNotices.releaseSessionOpenNotice_some h
  exact {
    trading := hw.trading
    cursor := hw.cursor
    trades := fun m x hx k' id' htarget => by
      obtain ⟨y, hy, hty, hsy⟩ := claims_back hc rfl hx
      obtain ⟨hid', hbelow⟩ := hw.trades m y hy k' id' (hty.trans htarget)
      exact ⟨hid', fun hstate => hbelow (hsy hstate).1⟩
    covered := fun k' hk => by
      obtain ⟨m, x, id', hx, htarget, hxstate⟩ := hw.covered k' hk
      have hm : n ≠ m := by
        rintro rfl
        obtain rfl := Option.some.inj (hc.symm.trans hx)
        exact nomatch htarget
      exact ⟨m, x, id', getElem?_modify_other hm hx, htarget, hxstate⟩
    blocks := fun m x hx id' k' htarget hstate => by
      obtain ⟨y, hy, hty, hsy⟩ := claims_back hc rfl hx
      obtain ⟨hystate, hne⟩ := hsy hstate
      rcases hw.blocks m y hy id' k' (hty.trans htarget) hystate with hmark' | hover
      · -- the marked block is this claim's own
        obtain rfl : id' = id := Option.some.inj (hmark'.symm.trans hmark)
        have hmn : m = n := hw.single (.block id') m n y _ hy hc
          ⟨hystate, by rw [hty, htarget]; rfl⟩ ⟨by simp, rfl⟩
        exact absurd rfl (hne hmn)
      · exact .inr hover
    marked := fun _ h => nomatch h
    single := single_mark hw .released hc rfl
    closed := fun h => by
      have hcomplete := hw.closed h
      exact ⟨hcomplete.finished, hcomplete.claimed, hcomplete.waiting⟩
    summary := hw.summary
    claimedSummary := hw.claimedSummary
    summaryMark := hw.summaryMark
    summarySingle := hw.summarySingle }

/-! ### The closing marks -/

/-- The notices close, the summary step left open. -/
theorem Inv.closeNotices (hw : w.Inv s) {facts : SessionFacts} {now : DbTime} {row : SessionNotices}
    (hsettled : facts.settled = w.db.settledTrades s) (hfinished : facts.finished = w.db.sessionFinished s)
    (h : w.row.claimSessionFinalNotice facts now false = some row) :
    ({ w with row := row } : NoticeWorld).Inv s := by
  obtain ⟨hfinal, hfin, hclaimed, hwaiting, rfl⟩ := SessionNotices.claimSessionFinalNotice_some h
  rw [hfinished] at hfin
  rw [hsettled] at hclaimed
  exact {
    trading := hw.trading
    cursor := hw.cursor
    trades := hw.trades
    covered := hw.covered
    blocks := hw.blocks
    marked := hw.marked
    single := hw.single
    closed := fun _ => ⟨hfin, hclaimed, hwaiting⟩
    summary := fun _ => nofun
    claimedSummary := fun _ => nofun
    summaryMark := hw.summaryMark
    summarySingle := hw.summarySingle }

/-- A claim of the summary that writes its mark over none, with the notices closed. -/
theorem Inv.summarise (hw : w.Inv s) {writer : SummaryWriter} {now : DbTime} {row : SessionNotices}
    (hcursor : row.notifiedTrades = w.row.notifiedTrades)
    (hblock : row.openNoticeIntentId = w.row.openNoticeIntentId)
    (hnone : w.row.summarySentAt = none) (hmark : row.summarySentAt = some now)
    (hfinal : row.finalNoticeSentAt ≠ none) (hcomplete : Complete w.db s row) :
    ({ w with row := row, summaries := w.summaries ++ [⟨writer, now, .held⟩] } : NoticeWorld).Inv s := by
  have hreleased : ∀ (n : ℕ) (c : SummaryClaim), w.summaries[n]? = some c → ¬ c.holds := by
    intro n c hc hholds
    have hsome := hw.summaryMark n c hc hholds
    rw [hnone] at hsome
    exact nomatch hsome
  exact {
    trading := hw.trading
    cursor := hcursor.trans_le hw.cursor
    trades := fun n c hc k id htarget => by
      obtain ⟨hid, hbelow⟩ := hw.trades n c hc k id htarget
      exact ⟨hid, fun hstate => (hbelow hstate).trans_eq hcursor.symm⟩
    covered := fun k hk => hw.covered k (hk.trans_eq hcursor)
    blocks := fun n c hc id k htarget hstate => by
      rw [hblock]
      exact hw.blocks n c hc id k htarget hstate
    marked := fun id hid => hw.marked id (hblock.symm.trans hid)
    single := hw.single
    closed := fun _ => hcomplete
    summary := fun _ => hfinal
    claimedSummary := fun _ => hfinal
    summaryMark := fun n c hc hholds => by
      rcases getElem?_snoc.mp hc with hc | ⟨_, rfl⟩
      · exact absurd hholds (hreleased n c hc)
      · exact hmark
    summarySingle := hw.summarySingle.snoc (fun _ n c hc => hreleased n c hc) }

/-- No summary is claimed while the notices are open. -/
theorem Inv.summary_none (hw : w.Inv s) (hfinal : w.row.finalNoticeSentAt = none) :
    w.row.summarySentAt = none := by
  by_contra hne
  exact hw.summary hne hfinal

/-- The notices close with the summary step: nobody has claimed it. -/
theorem Inv.closeSummary (hw : w.Inv s) {facts : SessionFacts} {now : DbTime} {row : SessionNotices}
    (hsettled : facts.settled = w.db.settledTrades s) (hfinished : facts.finished = w.db.sessionFinished s)
    (h : w.row.claimSessionFinalNotice facts now true = some row) :
    ({ w with row := row, summaries := w.summaries ++ [⟨.close, now, .held⟩] } : NoticeWorld).Inv s := by
  obtain ⟨hfinal, hfin, hclaimed, hwaiting, rfl⟩ := SessionNotices.claimSessionFinalNotice_some h
  rw [hfinished] at hfin
  rw [hsettled] at hclaimed
  exact hw.summarise rfl rfl (hw.summary_none hfinal) rfl nofun ⟨hfin, hclaimed, hwaiting⟩

theorem Inv.claimSummary (hw : w.Inv s) {facts : SessionFacts} {now : DbTime} {owned : Bool}
    {row : SessionNotices} (h : w.row.claimSessionSummary facts now owned = some row) :
    ({ w with row := row, summaries := w.summaries ++ [⟨.bot, now, .held⟩] } : NoticeWorld).Inv s := by
  obtain ⟨_, hfinal, hnone, rfl⟩ := SessionNotices.claimSessionSummary_some h
  have hcomplete := hw.closed hfinal
  exact hw.summarise rfl rfl hnone rfl hfinal ⟨hcomplete.finished, hcomplete.claimed, hcomplete.waiting⟩

theorem Inv.claimFallback (hw : w.Inv s) {facts : SessionFacts} {now : DbTime} {row : SessionNotices}
    (h : w.row.claimSummaryFallback facts now = some row) :
    ({ w with row := row, summaries := w.summaries ++ [⟨.fallback, now, .held⟩] } : NoticeWorld).Inv s := by
  obtain ⟨hfinal, hnone, rfl⟩ := SessionNotices.claimSummaryFallback_some h
  have hcomplete := hw.closed hfinal
  exact hw.summarise rfl rfl hnone rfl hfinal ⟨hcomplete.finished, hcomplete.claimed, hcomplete.waiting⟩

/-- The fallback puts its claim back: it is the one unreleased claim, and the mark is its own. -/
theorem Inv.releaseFallback (hw : w.Inv s) {n : ℕ} {writer : SummaryWriter} {claimedAt : DbTime}
    {row : SessionNotices} (hc : w.summaries[n]? = some ⟨writer, claimedAt, .held⟩)
    (h : w.row.releaseSummaryFallback claimedAt = some row) :
    ({ w with row := row, summaries := w.summaries.modify n (fun c => { c with state := .released }) } :
      NoticeWorld).Inv s := by
  obtain ⟨_, rfl⟩ := SessionNotices.releaseSummaryFallback_some h
  have hreleased : ∀ (m : ℕ) (c : SummaryClaim),
      (w.summaries.modify n (fun c => { c with state := .released }))[m]? = some c → ¬ c.holds := by
    intro m c hm hholds
    rcases getElem?_modify_some hm with ⟨rfl, y, _, rfl⟩ | ⟨hne, hm⟩
    · exact hholds rfl
    · have hnm : m = n := hw.summarySingle m n c _ hm hc hholds nofun
      exact hne hnm.symm
  exact {
    trading := hw.trading
    cursor := hw.cursor
    trades := hw.trades
    covered := hw.covered
    blocks := hw.blocks
    marked := hw.marked
    single := hw.single
    closed := fun hfinal => by
      have hcomplete := hw.closed hfinal
      exact ⟨hcomplete.finished, hcomplete.claimed, hcomplete.waiting⟩
    summary := fun h => absurd rfl h
    claimedSummary := fun _ => by
      refine hw.claimedSummary (fun hnil => ?_)
      rw [hnil] at hc
      exact nomatch hc
    summaryMark := fun m c hm hholds => absurd hholds (hreleased m c hm)
    summarySingle := fun i j a b ha _ hpa _ => absurd hpa (hreleased i a ha) }

/-- A release that found another mark, which never happens to a held claim. -/
theorem Inv.fallback_mark (hw : w.Inv s) {n : ℕ} {writer : SummaryWriter} {claimedAt : DbTime}
    (hc : w.summaries[n]? = some ⟨writer, claimedAt, .held⟩) :
    w.row.releaseSummaryFallback claimedAt = some { w.row with summarySentAt := none } := by
  have hmark := hw.summaryMark n _ hc nofun
  rw [SessionNotices.releaseSummaryFallback, if_pos hmark]

/-! ### Every action -/

/-- A statement on the waiting or the status message. -/
theorem Inv.write (hw : w.Inv s) {row : Option SessionNotices}
    (hkeep : ∀ row', row = some row' → row'.notifiedTrades = w.row.notifiedTrades ∧
      row'.openNoticeIntentId = w.row.openNoticeIntentId ∧ row'.finalNoticeSentAt = w.row.finalNoticeSentAt ∧
      row'.summarySentAt = w.row.summarySentAt ∧
      (w.row.finalNoticeSentAt ≠ none → row'.waitingMessageId = none)) : (w.write row).Inv s := by
  cases row with
  | none => exact hw
  | some row' =>
    obtain ⟨h1, h2, h3, h4, h5⟩ := hkeep row' rfl
    exact hw.setRow h1 h2 h3 h4 h5

theorem Inv.release (hw : w.Inv s) (n : ℕ) : (w.act s (.release n)).Inv s := by
  simp only [NoticeWorld.act]
  split
  · rename_i target hc
    cases hrow : releaseRow w.row target with
    | none => exact hw.mark .refused hc rfl nofun
    | some row =>
      cases target with
      | trade k id => exact hw.releaseTrade hc hrow
      | openBlock id k => exact hw.releaseBlock hc hrow
  · exact hw

theorem recordRow_some {row row' : SessionNotices} {messageId : MessageId} {fromTrade : ℕ}
    {target : NoticeTarget} (h : recordRow row messageId fromTrade target = some row') :
    row.finalNoticeSentAt = none ∧
      row' = { row with cycleMessageId := some messageId, cycleMessageFrom := some fromTrade } := by
  cases target with
  | trade k id =>
    obtain ⟨_, hfinal, _, hrow⟩ := SessionNotices.recordSessionCycleMessage_some h
    exact ⟨hfinal, hrow⟩
  | openBlock id k =>
    obtain ⟨_, hfinal, _, hrow⟩ := SessionNotices.recordSessionCycleMessage_some h
    exact ⟨hfinal, hrow⟩

theorem Inv.record (hw : w.Inv s) (n : ℕ) (messageId : MessageId) (fromTrade : ℕ) :
    (w.act s (.record n messageId fromTrade)).Inv s := by
  simp only [NoticeWorld.act]
  split
  · rename_i target hc
    cases hrow : recordRow w.row messageId fromTrade target with
    | none => exact hw.mark .refused hc rfl nofun
    | some row =>
      obtain ⟨hfinal, rfl⟩ := recordRow_some hrow
      exact (hw.mark .recorded hc rfl nofun).setRow rfl rfl rfl rfl (fun hne => absurd hfinal hne)
  · exact hw

/-- A waiting message is recorded only of an active session. -/
theorem Inv.not_active (hw : w.Inv s) (hfinal : w.row.finalNoticeSentAt ≠ none) {session : TradingSessionRow}
    (hfind : w.db.tradingSessions.find? s = some session) : session.status ≠ .active := by
  have hstopped := (Bool.and_eq_true_iff.mp (hw.closed hfinal).finished).1
  rw [hfind, Option.any_some, decide_eq_true_eq] at hstopped
  rw [hstopped]
  nofun

theorem Inv.stop (hw : w.Inv s) (reason : TradingSessionStopReason) (waitingMessageId : Option MessageId) :
    (w.act s (.stop reason waitingMessageId)).Inv s := by
  simp only [NoticeWorld.act]
  split
  · have htrade := hw.trade (.step (.stopSession s))
    refine htrade.setRow ?_ ?_ ?_ ?_ (fun hfinal => ?_)
    · unfold SessionNotices.stopped
      split <;> rfl
    · unfold SessionNotices.stopped
      split <;> rfl
    · unfold SessionNotices.stopped
      split <;> rfl
    · unfold SessionNotices.stopped
      split <;> rfl
    · have hwaiting := (hw.closed hfinal).waiting
      unfold SessionNotices.stopped
      split
      · rfl
      · exact hwaiting
  · exact hw

/-- **The step lemma.** -/
theorem Inv.act (hw : w.Inv s) (a : NoticeAct) : (w.act s a).Inv s := by
  cases a with
  | trading a =>
    have htrade := hw.trade a
    unfold NoticeWorld.act
    split
    · rename_i id heq
      obtain rfl := NoticeAct.trading.inj heq
      split
      · exact hw
      · exact htrade
    · rename_i heq
      obtain rfl := NoticeAct.trading.inj heq
      exact htrade
    all_goals (rename_i heq; exact nomatch heq)
  | stop reason waitingMessageId => exact hw.stop reason waitingMessageId
  | claimTrade now claimed graceMs =>
    simp only [NoticeWorld.act]
    split
    · rename_i facts hfacts
      obtain ⟨hsettled, _⟩ := sessionFacts_some hfacts
      split
      · rename_i id hid
        rw [hsettled] at hid
        cases hrow : w.row.claimSessionTradeNotice facts now claimed graceMs with
        | none => exact hw
        | some row => exact hw.claimTrade hsettled hid hrow
      · exact hw
    · exact hw
  | claimOpen now intentId settled graceMs =>
    simp only [NoticeWorld.act]
    split
    · rename_i facts hfacts
      obtain ⟨_, hopen, _⟩ := sessionFacts_some hfacts
      cases hrow : w.row.claimSessionOpenNotice facts now intentId settled graceMs with
      | none => exact hw
      | some row => exact hw.claimOpen hopen hrow
    · exact hw
  | release n => exact hw.release n
  | record n messageId fromTrade => exact hw.record n messageId fromTrade
  | claimFinal now closeSummary =>
    simp only [NoticeWorld.act]
    split
    · rename_i facts hfacts
      obtain ⟨hsettled, _, hfinished, _⟩ := sessionFacts_some hfacts
      split
      · cases hrow : w.row.claimSessionFinalNotice facts now true with
        | none => exact hw
        | some row => exact hw.closeSummary hsettled hfinished hrow
      · cases hrow : w.row.claimSessionFinalNotice facts now false with
        | none => exact hw
        | some row => exact hw.closeNotices hsettled hfinished hrow
    · exact hw
  | claimSummary now owned =>
    simp only [NoticeWorld.act]
    split
    · rename_i facts _
      cases hrow : w.row.claimSessionSummary facts now owned with
      | none => exact hw
      | some row => exact hw.claimSummary hrow
    · exact hw
  | claimFallback now =>
    simp only [NoticeWorld.act]
    split
    · rename_i facts _
      cases hrow : w.row.claimSummaryFallback facts now with
      | none => exact hw
      | some row => exact hw.claimFallback hrow
    · exact hw
  | releaseFallback n =>
    simp only [NoticeWorld.act]
    split
    · rename_i claimedAt hc
      rw [hw.fallback_mark hc]
      exact hw.releaseFallback hc (hw.fallback_mark hc)
    · exact hw
  | claimWaiting waitingForSignal =>
    simp only [NoticeWorld.act]
    split
    · refine hw.write (fun row' hrow => ?_)
      obtain ⟨_, hfinal, rfl⟩ := SessionNotices.claimSessionWaiting_some hrow
      exact ⟨rfl, rfl, rfl, rfl, fun hne => absurd hfinal hne⟩
    · exact hw
  | recordWaiting slot messageId =>
    simp only [NoticeWorld.act]
    split
    · rename_i facts hfacts
      obtain ⟨_, _, _, session, hfind, hstatus⟩ := sessionFacts_some hfacts
      refine hw.write (fun row' hrow => ?_)
      obtain ⟨_, _, hactive, rfl⟩ := SessionNotices.recordSessionWaitingMessage_some hrow
      refine ⟨rfl, rfl, rfl, rfl, fun hfinal => ?_⟩
      exact absurd (hstatus.symm.trans hactive) (hw.not_active hfinal hfind)
    · exact hw
  | releaseWaiting slot =>
    refine hw.write (fun row' hrow => ?_)
    obtain ⟨_, hnone, rfl⟩ := SessionNotices.releaseSessionWaiting_some hrow
    exact ⟨rfl, rfl, rfl, rfl, fun _ => hnone⟩
  | clearWaiting messageId =>
    refine hw.write (fun row' hrow => ?_)
    obtain ⟨_, rfl⟩ := SessionNotices.clearSessionWaitingMessage_some hrow
    exact ⟨rfl, rfl, rfl, rfl, fun _ => rfl⟩
  | recordStatus owned messageId =>
    simp only [NoticeWorld.act]
    split
    · refine hw.write (fun row' hrow => ?_)
      obtain rfl := SessionNotices.recordSessionStatusMessage_some hrow
      exact ⟨rfl, rfl, rfl, rfl, fun hfinal => (hw.closed hfinal).waiting⟩
    · exact hw
  | forgetStatus owned messageId =>
    refine hw.write (fun row' hrow => ?_)
    obtain rfl := SessionNotices.forgetSessionStatusMessage_some hrow
    exact ⟨rfl, rfl, rfl, rfl, fun hfinal => (hw.closed hfinal).waiting⟩

theorem Inv.run (s : SessionId) (db : Db) (clock : UnixMs) (startedAt : DbTime) (acts : List NoticeAct) :
    (Lib.run (NoticeWorld.act s) (.start db clock startedAt) acts).Inv s :=
  run_induction (.start s db clock startedAt) (fun _ a hw => hw.act a) acts

end NoticeWorld

end Binarius
