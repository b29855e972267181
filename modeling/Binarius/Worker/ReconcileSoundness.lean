import Mathlib.Tactic
import Binarius.Lib.Slices
import Binarius.Worker.RestReconciler
import Binarius.Worker.TradePages

/-!
# Worker.ReconcileSoundness — the reconciler against lists that change while they are read

The broker's lists of the intent's mode are an evolution: board 0 stands before the attempt's first
request, request number `k` is answered from board `k`.

* `BrokerLists`: what the broker is assumed to keep to.
* `BrokerLists.not_absent`: **a trade that was there before the attempt is never proven absent**.
* `BrokerLists.eq_of_found`: **a found trade is the only match that was there throughout**, of pages of
  two or more.
-/

namespace Binarius

open Lib

/-! ## The broker's lists -/

/-- Both lists at one moment. -/
structure Board where
  opened : List BrokerTrade
  closed : List BrokerTrade
  deriving DecidableEq, Repr

def Board.list (b : Board) : TradeListStatus → List BrokerTrade
  | .open => b.opened
  | .closed => b.closed

/-- On either list. -/
def Board.Listed (b : Board) (t : BrokerTrade) : Prop := t ∈ b.opened ∨ t ∈ b.closed

/-- What a trade is opened with. -/
structure SameTerms (t t' : BrokerTrade) : Prop where
  assetId : t.assetId = t'.assetId
  action : t.action = t'.action
  amount : t.amount = t'.amount
  isDemo : t.isDemo = t'.isDemo
  openTimestamp : t.openTimestamp = t'.openTimestamp

structure BrokerLists where
  boards : ℕ → Board
  /-- the rows of a page at most, whatever limit a request asks for -/
  caps : ℕ → ℕ
  /-- the order of a list, on trade ids -/
  before : TradeListStatus → String → String → Prop
  before_irrefl : ∀ status, Std.Irrefl (before status)
  before_trans : ∀ status, IsTrans String (before status)
  newestFirst : ∀ k status, NewestFirst (before status) ((boards k).list status)
  two_le_caps : ∀ k, 2 ≤ caps k
  /-- an id is one trade's -/
  same_terms : ∀ k k' t t', (boards k).Listed t → (boards k').Listed t' → t.id = t'.id → SameTerms t t'
  opened_stays : ∀ k, ∀ t ∈ (boards k).opened,
    HasId (boards (k + 1)).opened t.id ∨ HasId (boards (k + 1)).closed t.id
  closed_stays : ∀ k, ∀ t ∈ (boards k).closed, HasId (boards (k + 1)).closed t.id

/-- What else an attempt meets: its token, the requests that fail, the broker trades that back an intent
of the account, and whether the query for them fails. -/
structure AttemptInput where
  token : Except Unit AccessTokenOutcome
  fails : ℕ → Option RestThrown
  linked : String → Bool
  queryFails : Bool

/-- A page is a slice of the list as it stands at the request. -/
def BrokerLists.answers (B : BrokerLists) (config : RestReconcilerConfig) (input : AttemptInput) :
    AttemptAnswers where
  token := input.token
  listTrades k status offset :=
    match input.fails k with
    | some e => .error e
    | none => .ok (slice ((B.boards k).list status) offset (min config.pageSize (B.caps k)))
  linkedTradeIds ids := if input.queryFails then .error () else .ok (ids.filter input.linked)

/-- A trade that can be the intent's own: its mode, asset, action and amount, opened inside the window,
and backing no intent. -/
structure Matching (config : RestReconcilerConfig) (intent : TradeIntentRow) (submittedAt : UnixMs)
    (linked : String → Bool) (t : BrokerTrade) : Prop where
  mode : t.isDemo = decide (intent.mode = .demo)
  assetId : t.assetId = intent.assetId
  action : t.action = intent.action
  amount : normalizeDecimal t.amount = normalizeDecimal intent.amount
  after_start : submittedAt - config.windowBeforeMs ≤ t.openTimestamp
  before_end : t.openTimestamp ≤ submittedAt + config.windowAfterMs
  unlinked : linked t.id = false

/-- A match is one in any form that a list shows it in. -/
theorem Matching.of_same {config : RestReconcilerConfig} {intent : TradeIntentRow} {submittedAt : UnixMs}
    {linked : String → Bool} {t t' : BrokerTrade} (h : Matching config intent submittedAt linked t)
    (hid : t.id = t'.id) (hsame : SameTerms t t') : Matching config intent submittedAt linked t' where
  mode := hsame.isDemo ▸ h.mode
  assetId := hsame.assetId ▸ h.assetId
  action := hsame.action ▸ h.action
  amount := hsame.amount ▸ h.amount
  after_start := hsame.openTimestamp ▸ h.after_start
  before_end := hsame.openTimestamp ▸ h.before_end
  unlinked := hid ▸ h.unlinked

namespace BrokerLists

variable (B : BrokerLists)

/-- The trade was there before the first request, or at the latest when it was answered. -/
def Stood (t : BrokerTrade) : Prop := ∃ k ≤ 1, (B.boards k).Listed t

variable {B}

/-! ### Where a trade is later -/

/-- A closed trade stays closed. -/
theorem hasId_closed_mono {id : String} {k k' : ℕ} (h : HasId (B.boards k).closed id) (hk : k ≤ k') :
    HasId (B.boards k').closed id := by
  induction k', hk using Nat.le_induction with
  | base => exact h
  | succ n _ ih =>
    obtain ⟨t, ht, rfl⟩ := ih
    exact B.closed_stays n t ht

/-- A listed trade stays listed. -/
theorem hasId_mono {id : String} {k k' : ℕ}
    (h : HasId (B.boards k).opened id ∨ HasId (B.boards k).closed id) (hk : k ≤ k') :
    HasId (B.boards k').opened id ∨ HasId (B.boards k').closed id := by
  induction k', hk using Nat.le_induction with
  | base => exact h
  | succ n _ ih =>
    rcases ih with ⟨t, ht, rfl⟩ | ⟨t, ht, rfl⟩
    · exact B.opened_stays n t ht
    · exact .inr (B.closed_stays n t ht)

theorem Stood.hasId {t : BrokerTrade} (h : B.Stood t) {k : ℕ} (hk : 1 ≤ k) :
    HasId (B.boards k).opened t.id ∨ HasId (B.boards k).closed t.id := by
  obtain ⟨k', hk', ht⟩ := h
  refine hasId_mono ?_ (hk'.trans hk)
  rcases ht with ht | ht
  · exact .inl ⟨t, ht, rfl⟩
  · exact .inr ⟨t, ht, rfl⟩

/-- What a later board shows of a trade that was there. -/
theorem Stood.same {t t' : BrokerTrade} (h : B.Stood t) {k : ℕ} (ht' : (B.boards k).Listed t')
    (hid : t'.id = t.id) : SameTerms t t' := by
  obtain ⟨k', _, ht⟩ := h
  exact B.same_terms k' k t t' ht ht' hid.symm

/-! ### What the reads hold -/

section Reads

variable {config : RestReconcilerConfig} {input : AttemptInput} {intent : TradeIntentRow}
  {submittedAt claimedAt windowStart windowEnd : UnixMs}

theorem listTrades_ok {k offset : ℕ} {status : TradeListStatus} {items : List BrokerTrade}
    (h : (B.answers config input).listTrades k status offset = .ok items) :
    items = slice ((B.boards k).list status) offset (min config.pageSize (B.caps k)) := by
  simp only [answers] at h
  split at h
  · simp at h
  · exact (Except.ok.inj h).symm

theorem Listed.of_list {b : Board} {status : TradeListStatus} {t : BrokerTrade}
    (h : t ∈ b.list status) : b.Listed t := by
  cases status with
  | «open» => exact .inl h
  | closed => exact .inr h

/-- A trade of a read stood on a board. -/
theorem listed_of_mem {before : ℕ} {status : TradeListStatus} {w : WindowRead}
    (h : readWindow config (B.answers config input) intent before status windowStart windowEnd = .ok w)
    {t : BrokerTrade} (ht : t ∈ w.trades) : ∃ k, (B.boards k).Listed t := by
  obtain ⟨read, hread, htrades, -⟩ := readWindow_ok h
  rcases mem_of_readPages hread ((htrades t).mp ht).1 with hnil | ⟨page, offset, items, hitems, hmem⟩
  · simp [PagesState.initial] at hnil
  · obtain rfl := listTrades_ok hitems
    exact ⟨before + page, Listed.of_list (mem_of_mem_slice hmem)⟩

/-- A read of one page has the window's trades of its list, as they stood at its request. -/
theorem mem_of_proof (hsize : 1 ≤ config.pageSize) {before : ℕ} {status : TradeListStatus}
    {w : WindowRead}
    (h : readWindow config (B.answers config input) intent before status windowStart windowEnd = .ok w)
    (hproof : w.proof = true) {t : BrokerTrade} (ht : t ∈ (B.boards (before + 1)).list status)
    (hstart : windowStart ≤ t.openTimestamp) (hend : t.openTimestamp ≤ windowEnd) : t ∈ w.trades := by
  obtain ⟨read, hread, htrades, -, -, hone⟩ := readWindow_ok h
  obtain ⟨hcovered, hone⟩ := hone hproof
  have hcap := B.two_le_caps (before + 1)
  have hmem : t ∈ read.trades :=
    first_page_reads (fun items hitems => listTrades_ok hitems) (B.newestFirst (before + 1) status)
      (le_min hsize (by omega)) ht hstart hread hcovered hone
  exact (htrades t).mpr ⟨hmem, hstart, hend⟩

/-- A covered read of pages of two or more has the window's trades that stayed on its list. -/
theorem hasId_of_covered (hsize : 2 ≤ config.pageSize) {before : ℕ} {status : TradeListStatus}
    {w : WindowRead}
    (h : readWindow config (B.answers config input) intent before status windowStart windowEnd = .ok w)
    (hcovered : w.covered = true) {id : String}
    (hstays : ∀ k, before < k → k ≤ before + w.pagesRead →
      ∃ t ∈ (B.boards k).list status, t.id = id ∧ windowStart ≤ t.openTimestamp)
    (hend : ∀ k t, (B.boards k).Listed t → t.id = id →
      windowStart ≤ t.openTimestamp ∧ t.openTimestamp ≤ windowEnd) :
    HasId w.trades id := by
  obtain ⟨read, hread, htrades, hreadCovered, hpages, -⟩ := readWindow_ok h
  have := B.before_irrefl status
  have := B.before_trans status
  have hhas : HasId read.trades id := by
    refine covered_reads (fun page offset items hitems => listTrades_ok hitems)
      (fun page => B.newestFirst (before + page) status)
      (fun page => le_min hsize (B.two_le_caps (before + page))) ?_ hread
      (hreadCovered ▸ hcovered)
    intro page hpage hle
    exact hstays (before + page) (by omega) (by omega)
  obtain ⟨t, ht, hid⟩ := hhas
  rcases mem_of_readPages hread ht with hnil | ⟨page, offset, items, hitems, hmem⟩
  · simp [PagesState.initial] at hnil
  · obtain rfl := listTrades_ok hitems
    have hlisted := Listed.of_list (mem_of_mem_slice hmem)
    exact ⟨t, (htrades t).mpr ⟨ht, hend _ t hlisted hid⟩, hid⟩

/-- The database answers for the candidates only. -/
theorem linked_contains {opened closed : WindowRead} {linked : List String}
    (h : Linked (B.answers config input) intent opened closed linked) {t : BrokerTrade}
    (ht : t ∈ sameTrade intent (opened.trades ++ closed.trades)) :
    linked.contains t.id = input.linked t.id := by
  have hid : t.id ∈ (sameTrade intent (opened.trades ++ closed.trades)).map (·.id) :=
    List.mem_map_of_mem ht
  rcases h with ⟨hnone, rfl⟩ | hquery
  · rw [hnone] at hid
    simp at hid
  · simp only [answers] at hquery
    split at hquery
    · simp at hquery
    · obtain rfl := Except.ok.inj hquery
      rw [List.contains_eq_mem, Bool.eq_iff_iff, decide_eq_true_eq, List.mem_filter]
      exact and_iff_right hid

section Lists

variable {opened closed : WindowRead} {linked : List String}
  (hopened : readWindow config (B.answers config input) intent 0 .open windowStart windowEnd =
    .ok opened)
  (hclosed : readWindow config (B.answers config input) intent opened.pagesRead .closed windowStart
    windowEnd = .ok closed)
  (hlinked : Linked (B.answers config input) intent opened closed linked)

include hopened hclosed in
theorem listed_of_mem_reads {t : BrokerTrade} (ht : t ∈ opened.trades ++ closed.trades) :
    ∃ k, (B.boards k).Listed t := by
  rcases List.mem_append.mp ht with ht | ht
  · exact listed_of_mem hopened ht
  · exact listed_of_mem hclosed ht

include hopened hclosed hlinked in
/-- A match that the reads show, in any form, is among the exact matches. -/
theorem exact_of_hasId {t : BrokerTrade} (hstood : B.Stood t)
    (hmatch : Matching config intent submittedAt input.linked t)
    (hread : HasId (opened.trades ++ closed.trades) t.id) :
    ∃ t' ∈ exactMatches intent opened closed linked, t'.id = t.id := by
  obtain ⟨t', ht', hid⟩ := hasId_byId hread
  obtain ⟨k, hlisted⟩ := listed_of_mem_reads hopened hclosed (mem_of_mem_byId ht')
  have hmatch' := hmatch.of_same hid.symm (hstood.same hlisted hid)
  have hsame : t' ∈ sameTrade intent (opened.trades ++ closed.trades) := by
    refine List.mem_filter.mpr ⟨ht', ?_⟩
    simp [hmatch'.assetId, hmatch'.action, hmatch'.mode]
  refine ⟨t', List.mem_filter.mpr ⟨List.mem_filter.mpr ⟨hsame, ?_⟩, ?_⟩, hid⟩
  · rw [linked_contains hlinked hsame, hmatch'.unlinked]
    rfl
  · simp [isExact, hmatch'.amount]

include hopened hclosed hlinked in
/-- An exact match is a trade that the broker listed and that can be the intent's own. -/
theorem matching_of_exact (hstart : windowStart = submittedAt - config.windowBeforeMs)
    (hend : windowEnd = submittedAt + config.windowAfterMs) {t : BrokerTrade}
    (ht : t ∈ exactMatches intent opened closed linked) :
    Matching config intent submittedAt input.linked t ∧ ∃ k, (B.boards k).Listed t := by
  obtain ⟨ht, hexact⟩ := List.mem_filter.mp ht
  obtain ⟨ht, hunlinked⟩ := List.mem_filter.mp ht
  have hlinkedT := linked_contains hlinked ht
  obtain ⟨hby, hterms⟩ := List.mem_filter.mp ht
  have hmem := mem_of_mem_byId hby
  have hwindow : windowStart ≤ t.openTimestamp ∧ t.openTimestamp ≤ windowEnd := by
    rcases List.mem_append.mp hmem with hmem | hmem
    · obtain ⟨_, _, htrades, -⟩ := readWindow_ok hopened
      exact ((htrades t).mp hmem).2
    · obtain ⟨_, _, htrades, -⟩ := readWindow_ok hclosed
      exact ((htrades t).mp hmem).2
  simp only [Bool.and_eq_true, decide_eq_true_eq] at hterms
  refine ⟨?_, listed_of_mem_reads hopened hclosed hmem⟩
  exact
    { mode := hterms.2
      assetId := hterms.1.1
      action := hterms.1.2
      amount := by simpa [isExact] using hexact
      after_start := hstart ▸ hwindow.1
      before_end := hend ▸ hwindow.2
      unlinked := by rw [← hlinkedT]; simpa using hunlinked }

end Lists

/-! ### The two conclusions -/

/-- **A trade that was there before the attempt is never proven absent**: it is on the open list at the
first request, or on the closed one from then on. -/
theorem not_absent (hsize : 1 ≤ config.pageSize) {t : BrokerTrade} (hstood : B.Stood t)
    (hmatch : Matching config intent submittedAt input.linked t) :
    decideIntent config (B.answers config input) intent submittedAt claimedAt ≠ .ok .absent := by
  intro habsent
  obtain ⟨-, -, opened, closed, linked, hreads, hlinked, hnone, hproof, hproof'⟩ :=
    decideIntent_absent habsent
  obtain ⟨hopened, hclosed⟩ := readLists_ok hreads
  have hshown : HasId (opened.trades ++ closed.trades) t.id := by
    rcases hstood.hasId le_rfl with ⟨t', ht', hid⟩ | hclosedId
    · have hmatch' := hmatch.of_same hid.symm (hstood.same (.inl ht') hid)
      have hmem := mem_of_proof hsize hopened hproof ht' hmatch'.after_start hmatch'.before_end
      exact ⟨t', List.mem_append_left _ hmem, hid⟩
    · obtain ⟨t', ht', hid⟩ := hasId_closed_mono hclosedId (by omega : 1 ≤ opened.pagesRead + 1)
      have hmatch' := hmatch.of_same hid.symm (hstood.same (.inr ht') hid)
      have hmem := mem_of_proof hsize hclosed hproof' ht' hmatch'.after_start hmatch'.before_end
      exact ⟨t', List.mem_append_right _ hmem, hid⟩
  obtain ⟨t', ht', -⟩ := exact_of_hasId hopened hclosed hlinked hstood hmatch hshown
  rw [hnone] at ht'
  simp at ht'

/-- A covered pair of reads shows every match that was there: one still open when the open read ended was
on the open list all through it, one closed by then is on the closed list all through the other. -/
theorem hasId_of_reads (hsize : 2 ≤ config.pageSize) {opened closed : WindowRead}
    (hopened : readWindow config (B.answers config input) intent 0 .open
      (submittedAt - config.windowBeforeMs) (submittedAt + config.windowAfterMs) = .ok opened)
    (hclosed : readWindow config (B.answers config input) intent opened.pagesRead .closed
      (submittedAt - config.windowBeforeMs) (submittedAt + config.windowAfterMs) = .ok closed)
    (hcovered : opened.covered = true) (hcovered' : closed.covered = true) {t : BrokerTrade}
    (hstood : B.Stood t) (hmatch : Matching config intent submittedAt input.linked t) :
    HasId (opened.trades ++ closed.trades) t.id := by
  have hwindow : ∀ k t', (B.boards k).Listed t' → t'.id = t.id →
      submittedAt - config.windowBeforeMs ≤ t'.openTimestamp ∧
        t'.openTimestamp ≤ submittedAt + config.windowAfterMs := by
    intro k t' ht' hid
    have hmatch' := hmatch.of_same hid.symm (hstood.same ht' hid)
    exact ⟨hmatch'.after_start, hmatch'.before_end⟩
  by_cases hgone : HasId (B.boards opened.pagesRead).closed t.id
  · have hhas : HasId closed.trades t.id := by
      refine hasId_of_covered hsize hclosed hcovered' ?_ hwindow
      intro k hk _
      obtain ⟨t', ht', hid⟩ := hasId_closed_mono hgone hk.le
      exact ⟨t', ht', hid, (hwindow k t' (.inr ht') hid).1⟩
    exact hhas.mono (fun t' ht' => List.mem_append_right _ ht')
  · have hhas : HasId opened.trades t.id := by
      refine hasId_of_covered hsize hopened hcovered ?_ hwindow
      intro k hk hle
      rcases hstood.hasId hk with ⟨t', ht', hid⟩ | hclosedId
      · exact ⟨t', ht', hid, (hwindow k t' (.inl ht') hid).1⟩
      · exact absurd (hasId_closed_mono hclosedId (by omega)) hgone
    exact hhas.mono (fun t' ht' => List.mem_append_left _ ht')

/-- **A found trade is the only match that was there throughout.** -/
theorem eq_of_found (hsize : 2 ≤ config.pageSize) {found t : BrokerTrade}
    (h : decideIntent config (B.answers config input) intent submittedAt claimedAt =
      .ok (.result (.found found)))
    (hstood : B.Stood t) (hmatch : Matching config intent submittedAt input.linked t) :
    t.id = found.id := by
  obtain ⟨opened, closed, linked, hreads, hlinked, hone, hcovered, hcovered'⟩ := decideIntent_found h
  obtain ⟨hopened, hclosed⟩ := readLists_ok hreads
  have hshown := hasId_of_reads hsize hopened hclosed hcovered hcovered' hstood hmatch
  obtain ⟨t', ht', hid⟩ := exact_of_hasId hopened hclosed hlinked hstood hmatch hshown
  rw [hone, List.mem_singleton] at ht'
  rw [← hid, ht']

/-- A found trade can be the intent's own. -/
theorem matching_of_found {found : BrokerTrade}
    (h : decideIntent config (B.answers config input) intent submittedAt claimedAt =
      .ok (.result (.found found))) :
    Matching config intent submittedAt input.linked found ∧ ∃ k, (B.boards k).Listed found := by
  obtain ⟨opened, closed, linked, hreads, hlinked, hone, -⟩ := decideIntent_found h
  obtain ⟨hopened, hclosed⟩ := readLists_ok hreads
  refine matching_of_exact hopened hclosed hlinked rfl rfl ?_
  rw [hone]
  exact List.mem_singleton.mpr rfl

end Reads

end BrokerLists

/-! ## What a call of reconcile answers -/

section Reconcile

variable {config : RestReconcilerConfig} {answers : AttemptAnswers} {intent : TradeIntentRow}
  {aborted : Bool} {absentSince : AbsentSince}

/-- A result that no refusal and no abort gave is the attempt's own. -/
theorem reconcile_ok {r : ReconcileResult} (h : (reconcile config answers intent aborted absentSince).1 =
      .ok r) (hr : ∀ reason, r ≠ .unavailable reason) :
    aborted = false ∧ ∃ submittedAt claimedAt, intent.submittedAt = some submittedAt ∧
      intent.reconcileClaimedAt = some claimedAt ∧
      (decideIntent config answers intent submittedAt claimedAt = .ok (.result r) ∨
        (decideIntent config answers intent submittedAt claimedAt = .ok .absent ∧ r = .notFound)) := by
  unfold reconcile at h
  split at h
  · simp at h
  · simp at h
  · rename_i submittedAt claimedAt hsubmitted hclaimed
    unfold endAttempt at h
    split at h
    · simp at h
    rename_i d hd
    split at h
    · exact absurd (Except.ok.inj h).symm (hr _)
    rename_i hlive
    refine ⟨by simpa using hlive, submittedAt, claimedAt, hsubmitted, hclaimed, ?_⟩
    split at h
    · refine .inr ⟨hd, ?_⟩
      simp only [confirmAbsence] at h
      split at h
      · split at h
        · exact absurd (Except.ok.inj h).symm (hr _)
        · exact (Except.ok.inj h).symm
      · exact absurd (Except.ok.inj h).symm (hr _)
    · obtain rfl := Except.ok.inj h
      exact .inl hd

end Reconcile

/-- **Reconciliation against lists that change while they are read.**  A match that was there before the
attempt is never proven absent.  A found trade can be the intent's own, and of pages of two or more it is
the only match that was there throughout. -/
theorem reconcile_sound (B : BrokerLists) (config : RestReconcilerConfig) (hsize : 1 ≤ config.pageSize)
    (input : AttemptInput) (intent : TradeIntentRow) (submittedAt : UnixMs)
    (hsubmitted : intent.submittedAt = some submittedAt) (aborted : Bool) (absentSince : AbsentSince) :
    (∀ t, B.Stood t → Matching config intent submittedAt input.linked t →
      (∀ claimedAt,
        decideIntent config (B.answers config input) intent submittedAt claimedAt ≠ .ok .absent) ∧
      (reconcile config (B.answers config input) intent aborted absentSince).1 ≠ .ok .notFound) ∧
    ∀ found, (reconcile config (B.answers config input) intent aborted absentSince).1 =
        .ok (.found found) →
      Matching config intent submittedAt input.linked found ∧ (∃ k, (B.boards k).Listed found) ∧
      (2 ≤ config.pageSize → ∀ t, B.Stood t → Matching config intent submittedAt input.linked t →
        t.id = found.id) := by
  refine ⟨fun t hstood hmatch => ⟨fun _ => BrokerLists.not_absent hsize hstood hmatch, ?_⟩, ?_⟩
  · intro hnotFound
    obtain ⟨-, submittedAt', claimedAt, hsubmitted', -, hdecided⟩ := reconcile_ok hnotFound (by simp)
    obtain rfl := Option.some.inj (hsubmitted.symm.trans hsubmitted')
    rcases hdecided with hresult | ⟨habsent, -⟩
    · exact decideIntent_ne_notFound hresult
    · exact BrokerLists.not_absent hsize hstood hmatch habsent
  · intro found hfound
    obtain ⟨-, submittedAt', claimedAt, hsubmitted', -, hdecided⟩ := reconcile_ok hfound (by simp)
    obtain rfl := Option.some.inj (hsubmitted.symm.trans hsubmitted')
    have hdecided : decideIntent config (B.answers config input) intent submittedAt claimedAt =
        .ok (.result (.found found)) := by
      rcases hdecided with hresult | ⟨-, hbad⟩
      · exact hresult
      · simp at hbad
    obtain ⟨hmatch, hlisted⟩ := BrokerLists.matching_of_found hdecided
    exact ⟨hmatch, hlisted, fun hsize t hstood ht => BrokerLists.eq_of_found hsize hdecided hstood ht⟩

/-! ### Two evolutions -/

/-- A demo intent for 5, submitted at 1000 and claimed at 2000. -/
def reconcilingIntent : TradeIntentRow :=
  { id := 1, brokerAccountId := 1, userId := 1, mode := .demo, assetId := 7, amount := ['5'],
    action := .up, durationSec := 60, clientRequestId := "a", tradingSessionId := none,
    submitDeadlineAt := none, submitNotBeforeAt := none, signalDecisionId := none,
    status := .reconciling, version := 3, tokensReserved := 10, transport := none,
    submittedAt := some 1000, lastError := none, reconcileClaimedAt := some 2000, createdAt := 900,
    updatedAt := 2000 }

def demoTrade (id : String) (openTimestamp : UnixMs) : BrokerTrade :=
  { id := id, assetId := 7, action := .up, amount := ['5'], openTimestamp := openTimestamp,
    isDemo := true, closed := none }

def newerTrade : BrokerTrade := demoTrade "x" 1020

def olderTrade : BrokerTrade := demoTrade "t" 1010

/-- The newer trade `x` closes after the first request; `t` stays open. -/
def closingLists : BrokerLists where
  boards k := if k ≤ 1 then ⟨[newerTrade, olderTrade], []⟩ else ⟨[olderTrade], [newerTrade]⟩
  caps _ := 2
  before _ a b := a = "x" ∧ b = "t"
  before_irrefl _ := ⟨fun a h => by simp [h.1] at h⟩
  before_trans _ := ⟨fun a b c h h' => by simp [h.2] at h'⟩
  newestFirst k status := by
    split <;> cases status <;> constructor <;> simp [Board.list, newerTrade, olderTrade, demoTrade]
  two_le_caps _ := le_rfl
  same_terms k k' a b ha hb hid := by
    have hlisted : ∀ k c, Board.Listed (if k ≤ 1 then ⟨[newerTrade, olderTrade], []⟩
        else ⟨[olderTrade], [newerTrade]⟩) c → c = newerTrade ∨ c = olderTrade := by
      intro k c hc
      split at hc
      · simpa [Board.Listed] using hc
      · simpa [Board.Listed, or_comm] using hc
    rcases hlisted k a ha with rfl | rfl
    · rcases hlisted k' b hb with rfl | rfl
      · exact ⟨rfl, rfl, rfl, rfl, rfl⟩
      · simp [newerTrade, olderTrade, demoTrade] at hid
    · rcases hlisted k' b hb with rfl | rfl
      · simp [newerTrade, olderTrade, demoTrade] at hid
      · exact ⟨rfl, rfl, rfl, rfl, rfl⟩
  opened_stays k a ha := by
    by_cases hk : k ≤ 1
    · rw [if_pos hk] at ha
      by_cases hk' : k + 1 ≤ 1
      · rw [if_pos hk']
        exact .inl ⟨a, ha, rfl⟩
      · rw [if_neg hk']
        rcases (by simpa using ha : a = newerTrade ∨ a = olderTrade) with rfl | rfl
        · exact .inr ⟨newerTrade, by simp, rfl⟩
        · exact .inl ⟨olderTrade, by simp, rfl⟩
    · rw [if_neg hk] at ha
      rw [if_neg (by omega)]
      exact .inl ⟨a, ha, rfl⟩
  closed_stays k a ha := by
    by_cases hk : k ≤ 1
    · rw [if_pos hk] at ha
      simp at ha
    · rw [if_neg hk] at ha
      rw [if_neg (by omega)]
      exact ⟨a, ha, rfl⟩

/-- The trade `x` is opened after the first request, and closed before the second. -/
def openingLists : BrokerLists where
  boards k := if k ≤ 1 then ⟨[], []⟩ else ⟨[], [newerTrade]⟩
  caps _ := 2
  before _ _ _ := False
  before_irrefl _ := ⟨fun _ h => h⟩
  before_trans _ := ⟨fun _ _ _ h _ => h⟩
  newestFirst k status := by
    split <;> cases status <;> constructor <;> simp [Board.list]
  two_le_caps _ := le_rfl
  same_terms k k' a b ha hb _ := by
    have hlisted : ∀ k c, Board.Listed (if k ≤ 1 then ⟨[], []⟩ else ⟨[], [newerTrade]⟩) c →
        c = newerTrade := by
      intro k c hc
      split at hc
      · simp [Board.Listed] at hc
      · simpa [Board.Listed] using hc
    obtain rfl := hlisted k a ha
    obtain rfl := hlisted k' b hb
    exact ⟨rfl, rfl, rfl, rfl, rfl⟩
  opened_stays k a ha := by
    split at ha <;> simp at ha
  closed_stays k a ha := by
    split at ha
    · simp at ha
    · rename_i hk
      rw [if_neg (by omega)]
      exact ⟨a, ha, rfl⟩

def openInput : AttemptInput where
  token := .ok .ok
  fails _ := none
  linked _ := false
  queryFails := false

/-- An attempt of the intent's, of two pages of `pageSize` at most. -/
def attemptOn (B : BrokerLists) (pageSize : ℕ) : Except ReconcileThrown ReconcileResult :=
  (reconcile ⟨100, 100, pageSize, 2⟩ (B.answers ⟨100, 100, pageSize, 2⟩ openInput) reconcilingIntent
    false (fun _ => none)).1

theorem matching_olderTrade (pageSize : ℕ) :
    Matching ⟨100, 100, pageSize, 2⟩ reconcilingIntent 1000 openInput.linked olderTrade where
  mode := rfl
  assetId := rfl
  action := rfl
  amount := rfl
  after_start := by
    show (1000 - 100 : ℤ) ≤ 1010
    norm_num
  before_end := by
    show (1010 : ℤ) ≤ 1000 + 100
    norm_num
  unlinked := rfl

theorem stood_olderTrade : closingLists.Stood olderTrade := ⟨0, by decide, .inl (by decide)⟩

/-- Of pages of one, a match that was open throughout can be missed; and a trade can be found that was
not there at the first request. -/
theorem found_is_not_the_only_match :
    (attemptOn closingLists 1 = .ok (.found newerTrade) ∧ closingLists.Stood olderTrade ∧
      Matching ⟨100, 100, 1, 2⟩ reconcilingIntent 1000 openInput.linked olderTrade ∧
      olderTrade.id ≠ newerTrade.id) ∧
    attemptOn openingLists 50 = .ok (.found newerTrade) ∧ ¬ openingLists.Stood newerTrade := by
  refine ⟨⟨by decide, stood_olderTrade, matching_olderTrade 1, by decide⟩, by decide, ?_⟩
  rintro ⟨k, hk, hlisted⟩
  simp [openingLists, hk, Board.Listed] at hlisted

theorem reconcile_sound_closingLists : attemptOn closingLists 50 ≠ .ok .notFound :=
  ((reconcile_sound closingLists ⟨100, 100, 50, 2⟩ (by decide) openInput reconcilingIntent 1000 rfl false
    (fun _ => none)).1 olderTrade stood_olderTrade (matching_olderTrade 50)).2

end Binarius
