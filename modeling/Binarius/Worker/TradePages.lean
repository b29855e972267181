import Mathlib.Tactic
import Binarius.Lib.Slices
import Binarius.Shared.Trading

/-!
# Worker.TradePages — the one reader of the broker's trade list pages
(apps/trading-worker/src/intents/trade-pages.ts)

Each next page is asked for one trade before the end of the last one, so that it must start with a trade
already read.  `covered` means the list was read to its end or to a trade the caller stops at.

* `readTradePages`: the loop, over any way of fetching a page.
* `covered_reads`: **a covered read has every trade that stayed on the list**, whatever else was inserted
  or removed between its requests.
* `first_page_reads`: so has a read that one page covered, of any page size.
-/

namespace Binarius

open Lib

inductive TradePagesViolation
  /-- open_timestamp grows inside a page -/
  | order
  /-- the first unread trade of a page is newer than the last trade of the previous page -/
  | seam
  /-- a page does not start with a trade already read -/
  | continuity
  /-- a page repeated what was read -/
  | noProgress
  deriving DecidableEq, Repr

structure TradePagesRead where
  /-- every trade read once, in list order -/
  trades : List BrokerTrade
  covered : Bool
  pagesRead : ℕ
  deriving DecidableEq, Repr

/-- What a read throws: its own violation, or what a fetch threw. -/
inductive PagesThrown (ε : Type)
  | violation (v : TradePagesViolation)
  | fetch (e : ε)
  deriving DecidableEq, Repr

/-- The last page, as the next one is checked against it. -/
structure PreviousPage where
  lastTs : UnixMs
  length : ℕ
  deriving DecidableEq, Repr

/-- The variables of the loop, before page number `page`. -/
structure PagesState where
  trades : List BrokerTrade
  previous : Option PreviousPage
  offset : ℕ
  page : ℕ
  deriving DecidableEq, Repr

def PagesState.initial : PagesState := { trades := [], previous := none, offset := 0, page := 1 }

namespace PagesState

/-- `seen.has(id)`. -/
def seen (s : PagesState) (id : String) : Bool := (s.trades.map (·.id)).contains id

/-- A pair of neighbours whose open_timestamp grows. -/
def growing : List BrokerTrade → Bool
  | a :: b :: rest => decide (a.openTimestamp < b.openTimestamp) || growing (b :: rest)
  | _ => false

/-- What a page means against the one before it. -/
def violation (s : PagesState) (first : BrokerTrade) (fresh : List BrokerTrade) :
    Option TradePagesViolation :=
  match s.previous with
  | none => none
  | some previous =>
    if previous.length = 1 ∨ s.seen first.id = false then some .continuity
    else if fresh.head?.any (fun t => decide (previous.lastTs < t.openTimestamp)) then some .seam
    else none

/-- One page: the read ends, or the state before the next page. -/
def readPage (s : PagesState) (stopAt : BrokerTrade → Bool) :
    List BrokerTrade → Except TradePagesViolation (PagesState ⊕ TradePagesRead)
  | [] =>
    if s.previous.any (fun p => decide (2 ≤ p.length)) then .error .continuity
    else .ok (.inr { trades := s.trades, covered := true, pagesRead := s.page })
  | first :: rest =>
    let items := first :: rest
    let fresh := items.filter (fun t => !s.seen t.id)
    if growing items then .error .order
    else
      match s.violation first fresh with
      | some v => .error v
      | none =>
        if fresh = [] then
          if items.length = 1 then
            .ok (.inr { trades := s.trades, covered := true, pagesRead := s.page })
          else .error .noProgress
        else if items.any stopAt then
          .ok (.inr { trades := s.trades ++ fresh, covered := true, pagesRead := s.page })
        else
          .ok (.inl
            { trades := s.trades ++ fresh
              previous := some
                { lastTs := (items.getLast (by simp [items])).openTimestamp, length := items.length }
              offset := s.offset + (if 2 ≤ items.length then items.length - 1 else 1)
              page := s.page + 1 })

/-- The loop, with `n` pages left. -/
def readPages {ε : Type} (fetchPage : ℕ → ℕ → Except ε (List BrokerTrade))
    (stopAt : BrokerTrade → Bool) : ℕ → PagesState → Except (PagesThrown ε) TradePagesRead
  | 0, s => .ok { trades := s.trades, covered := false, pagesRead := s.page - 1 }
  | n + 1, s =>
    match fetchPage s.page s.offset with
    | .error e => .error (.fetch e)
    | .ok items =>
      match s.readPage stopAt items with
      | .error v => .error (.violation v)
      | .ok (.inl s') => readPages fetchPage stopAt n s'
      | .ok (.inr read) => .ok read

end PagesState

/-- `fetchPage` is given the number of the page, from 1, and its offset. -/
def readTradePages {ε : Type} (fetchPage : ℕ → ℕ → Except ε (List BrokerTrade)) (maxPages : ℕ)
    (stopAt : BrokerTrade → Bool) : Except (PagesThrown ε) TradePagesRead :=
  PagesState.readPages fetchPage stopAt maxPages .initial

/-! ## What a read knows of the list -/

section Reading

variable {s s' : PagesState} {stopAt : BrokerTrade → Bool} {items : List BrokerTrade}

/-- A trade of the id is among them. -/
def HasId (l : List BrokerTrade) (id : String) : Prop := ∃ t ∈ l, t.id = id

theorem HasId.mono {l l' : List BrokerTrade} {id : String} (h : HasId l id) (hsub : ∀ t ∈ l, t ∈ l') :
    HasId l' id := by
  obtain ⟨t, ht, hid⟩ := h
  exact ⟨t, hsub t ht, hid⟩

theorem seen_eq_true {id : String} : s.seen id = true ↔ HasId s.trades id := by
  simp [PagesState.seen, HasId]

/-- The trades of a read, after a page of it. -/
def PagesState.merged (s : PagesState) (items : List BrokerTrade) : List BrokerTrade :=
  s.trades ++ items.filter (fun t => !s.seen t.id)

theorem hasId_merged_iff {id : String} :
    HasId (s.merged items) id ↔ HasId s.trades id ∨ HasId items id := by
  constructor
  · rintro ⟨t, ht, hid⟩
    rcases List.mem_append.mp ht with ht | ht
    · exact .inl ⟨t, ht, hid⟩
    · exact .inr ⟨t, List.mem_of_mem_filter ht, hid⟩
  · rintro (h | ⟨t, ht, hid⟩)
    · exact h.mono (fun t ht => List.mem_append_left _ ht)
    · by_cases hseen : s.seen t.id = true
      · rw [hid] at hseen
        exact (seen_eq_true.mp hseen).mono (fun t ht => List.mem_append_left _ ht)
      · exact ⟨t, List.mem_append_right _ (List.mem_filter.mpr ⟨ht, by simpa using hseen⟩), hid⟩

/-- What an accepted page can be. -/
theorem readPage_ok {res : PagesState ⊕ TradePagesRead} (h : s.readPage stopAt items = .ok res) :
    (items = [] ∧ (∀ p, s.previous = some p → p.length < 2) ∧
        res = .inr { trades := s.trades, covered := true, pagesRead := s.page }) ∨
      ∃ first rest, items = first :: rest ∧
        (∀ p, s.previous = some p → HasId s.trades first.id) ∧
        ((items.filter (fun t => !s.seen t.id) = [] ∧ items.length = 1 ∧
            res = .inr { trades := s.trades, covered := true, pagesRead := s.page }) ∨
          (items.any stopAt = true ∧
            res = .inr { trades := s.merged items, covered := true, pagesRead := s.page }) ∨
          (items.any stopAt = false ∧ ∃ s', res = .inl s' ∧ s'.trades = s.merged items ∧
            (∃ p, s'.previous = some p ∧ p.length = items.length) ∧ s'.page = s.page + 1)) := by
  cases items with
  | nil =>
    simp only [PagesState.readPage] at h
    split at h
    · simp at h
    · rename_i hshort
      refine .inl ⟨rfl, ?_, (Except.ok.inj h).symm⟩
      intro p hp
      simpa [hp] using hshort
  | cons first rest =>
    simp only [PagesState.readPage] at h
    split at h
    · simp at h
    split at h
    · simp at h
    rename_i hviolation
    have hseen : ∀ p, s.previous = some p → HasId s.trades first.id := by
      intro p hp
      simp only [PagesState.violation, hp] at hviolation
      split at hviolation
      · simp at hviolation
      · rename_i hcont
        simp only [not_or, Bool.not_eq_false] at hcont
        exact seen_eq_true.mp hcont.2
    refine .inr ⟨first, rest, rfl, hseen, ?_⟩
    split at h
    · rename_i hfresh
      split at h
      · rename_i hone
        exact .inl ⟨hfresh, hone, (Except.ok.inj h).symm⟩
      · simp at h
    · split at h
      · rename_i hstop
        exact .inr (.inl ⟨hstop, (Except.ok.inj h).symm⟩)
      · rename_i hstop
        exact .inr (.inr ⟨by simpa using hstop, _, (Except.ok.inj h).symm, rfl, ⟨_, rfl, rfl⟩, rfl⟩)

/-- The number of a later page is larger. -/
theorem pagesRead_ge {ε : Type} {fetchPage : ℕ → ℕ → Except ε (List BrokerTrade)}
    {stopAt : BrokerTrade → Bool} {n : ℕ} {s : PagesState} {read : TradePagesRead}
    (hread : PagesState.readPages fetchPage stopAt n s = .ok read) (hcovered : read.covered = true) :
    s.page ≤ read.pagesRead := by
  induction n generalizing s with
  | zero =>
    obtain rfl := Except.ok.inj hread
    simp at hcovered
  | succ n ih =>
    simp only [PagesState.readPages] at hread
    split at hread
    · simp at hread
    split at hread
    · simp at hread
    · rename_i s' hres
      have hle := ih hread
      rcases readPage_ok hres with ⟨_, _, hbad⟩ | ⟨_, _, _, _, ⟨_, _, hbad⟩ | ⟨_, hbad⟩ |
        ⟨_, s'', hs'', _, _, hpage'⟩⟩
      · simp at hbad
      · simp at hbad
      · simp at hbad
      · obtain rfl := Sum.inl.inj hs''
        omega
    · rename_i read' hres
      obtain rfl := Except.ok.inj hread
      rcases readPage_ok hres with ⟨_, _, hr⟩ | ⟨_, _, _, _, ⟨_, _, hr⟩ | ⟨_, hr⟩ |
        ⟨_, s'', hs'', _, _, _⟩⟩
      · obtain rfl := Sum.inr.inj hr
        exact le_rfl
      · obtain rfl := Sum.inr.inj hr
        exact le_rfl
      · obtain rfl := Sum.inr.inj hr
        exact le_rfl
      · simp at hs''

/-- A list of the broker at the moment of a request: strictly ordered, newest first. -/
structure NewestFirst (before : String → String → Prop) (l : List BrokerTrade) : Prop where
  sorted : l.Pairwise (fun a b => before a.id b.id)
  newest : ∀ a ∈ l, ∀ b ∈ l, before a.id b.id → b.openTimestamp ≤ a.openTimestamp

variable {before : String → String → Prop} {l : List BrokerTrade} {id : String} {n offset : ℕ}

/-- A trade the caller does not stop at is on the page, or the page holds nothing that comes after it. -/
theorem stop_of_slice (hl : NewestFirst before l) {windowStart : UnixMs} {t : BrokerTrade} (ht : t ∈ l)
    (hwindow : windowStart ≤ t.openTimestamp) {y : BrokerTrade} (hy : y ∈ slice l offset n)
    (hyt : before y.id t.id) : ¬ y.openTimestamp < windowStart := by
  have hle := hl.newest y (mem_of_mem_slice hy) t ht hyt
  exact not_lt.mpr (hwindow.trans hle)

/-- What a state knows of a trade that stays on the list: it was read, or everything read comes before
it. -/
structure Knows (before : String → String → Prop) (s : PagesState) (id : String) : Prop where
  first : s.previous = none → s.trades = [] ∧ s.offset = 0
  behind : HasId s.trades id ∨ ((∀ t ∈ s.trades, before t.id id) ∧
    ∀ p, s.previous = some p → 2 ≤ p.length)

variable [hirrefl : Std.Irrefl before] [htrans : IsTrans String before]

/-- **One page of a covered read**, of a list with no trade to stop at before this one. -/
theorem Knows.readPage (h : Knows before s id) (hl : l.Pairwise (fun a b => before a.id b.id)) (hn : 2 ≤ n)
    {t : BrokerTrade} (ht : t ∈ l) (hid : t.id = id)
    (hgoes : ∀ y ∈ l, before y.id t.id → stopAt y = false) {res : PagesState ⊕ TradePagesRead}
    (hres : s.readPage stopAt (slice l s.offset n) = .ok res) :
    (∀ s', res = .inl s' → Knows before s' id) ∧ ∀ read, res = .inr read → HasId read.trades id := by
  have hafter : ∀ y ∈ slice l s.offset n, before y.id t.id → t ∈ slice l s.offset n ∨
      ((∀ z ∈ slice l s.offset n, before z.id t.id) ∧ (slice l s.offset n).length = n) :=
    fun y hy hyt => mem_slice_or_after (fun a => hirrefl.irrefl a.id)
      (fun a b c => htrans.trans a.id b.id c.id) hl ht hy hyt
  rcases h.behind with hhas | ⟨hbefore, hlong⟩
  · -- already read: nothing is ever dropped
    rcases readPage_ok hres with ⟨_, _, rfl⟩ | ⟨first, rest, hitems, _, ⟨_, _, rfl⟩ | ⟨_, rfl⟩ |
      ⟨_, s', rfl, htrades, ⟨p, hp, _⟩, _⟩⟩
    · exact ⟨by simp, fun read hread => by obtain rfl := Sum.inr.inj hread; exact hhas⟩
    · exact ⟨by simp, fun read hread => by obtain rfl := Sum.inr.inj hread; exact hhas⟩
    · refine ⟨by simp, fun read hread => ?_⟩
      obtain rfl := Sum.inr.inj hread
      exact hasId_merged_iff.mpr (.inl hhas)
    · refine ⟨fun s'' hs'' => ?_, by simp⟩
      obtain rfl := Sum.inl.inj hs''
      refine ⟨fun hnone => ?_, .inl ?_⟩
      · rw [hp] at hnone
        simp at hnone
      · rw [htrades]
        exact hasId_merged_iff.mpr (.inl hhas)
  · -- where the trade is: on the page, or behind a full page
    have hwhere : ∀ first rest, slice l s.offset n = first :: rest →
        (∀ p, s.previous = some p → HasId s.trades first.id) →
        t ∈ slice l s.offset n ∨
          ((∀ z ∈ slice l s.offset n, before z.id t.id) ∧ (slice l s.offset n).length = n) := by
      intro first rest hitems hseen
      cases hprev : s.previous with
      | none =>
        have hzero := (h.first hprev).2
        rw [hzero]
        exact mem_slice_zero_or_after hl ht
      | some p =>
        obtain ⟨t', ht', hid'⟩ := hseen p hprev
        refine hafter first (by rw [hitems]; exact List.mem_cons_self) ?_
        rw [← hid', hid]
        exact hbefore t' ht'
    rcases readPage_ok hres with ⟨hempty, hshort, rfl⟩ | ⟨first, rest, hitems, hseen, hcase⟩
    · -- an empty page: only a first one, and then the list is empty
      refine ⟨by simp, fun read _ => ?_⟩
      cases hprev : s.previous with
      | some p =>
        have hlt := hshort p hprev
        have hle := hlong p hprev
        omega
      | none =>
        rw [(h.first hprev).2] at hempty
        rcases mem_slice_zero_or_after (n := n) hl ht with hmem | ⟨_, hlen⟩
        · rw [hempty] at hmem
          simp at hmem
        · rw [hempty, List.length_nil] at hlen
          omega
    · have hon : t ∈ slice l s.offset n → HasId (slice l s.offset n) id := fun hmem => ⟨t, hmem, hid⟩
      rcases hcase with ⟨hfresh, hone, rfl⟩ | ⟨hstop, rfl⟩ | ⟨_, s', rfl, htrades, ⟨p, hp, hlen⟩, _⟩
      · -- only the overlap came back
        refine ⟨by simp, fun read hread => ?_⟩
        obtain rfl := Sum.inr.inj hread
        rcases hwhere first rest hitems hseen with hmem | ⟨_, hfull⟩
        · have hnotFresh : t ∉ (slice l s.offset n).filter (fun t => !s.seen t.id) := by
            rw [hfresh]
            simp
          have hseenT : s.seen t.id = true := by
            by_contra hunseen
            exact hnotFresh (List.mem_filter.mpr ⟨hmem, by simpa using hunseen⟩)
          rw [← hid]
          exact seen_eq_true.mp hseenT
        · omega
      · -- the page reached a trade to stop at
        refine ⟨by simp, fun read hread => ?_⟩
        obtain rfl := Sum.inr.inj hread
        refine hasId_merged_iff.mpr (.inr ?_)
        rcases hwhere first rest hitems hseen with hmem | ⟨hall, _⟩
        · exact hon hmem
        · obtain ⟨y, hy, hold⟩ := List.any_eq_true.mp hstop
          rw [hgoes y (mem_of_mem_slice hy) (hall y hy)] at hold
          exact absurd hold Bool.false_ne_true
      · refine ⟨fun s'' hs'' => ?_, by simp⟩
        obtain rfl := Sum.inl.inj hs''
        refine ⟨fun hnone => ?_, ?_⟩
        · rw [hp] at hnone
          simp at hnone
        · rcases hwhere first rest hitems hseen with hmem | ⟨hall, hfull⟩
          · refine .inl ?_
            rw [htrades]
            exact hasId_merged_iff.mpr (.inr (hon hmem))
          · refine .inr ⟨?_, ?_⟩
            · intro t' ht'
              rw [htrades] at ht'
              rcases List.mem_append.mp ht' with hold | hnew
              · exact hbefore t' hold
              · rw [← hid]
                exact hall t' (List.mem_of_mem_filter hnew)
            · intro p' hp'
              rw [hp, Option.some.injEq] at hp'
              subst hp'
              rw [hlen, hfull]
              exact hn

/-- The run of the loop: what is known at the start is known at a covered end. -/
theorem Knows.readPages {ε : Type} {fetchPage : ℕ → ℕ → Except ε (List BrokerTrade)}
    {lists : ℕ → List BrokerTrade} {sizes : ℕ → ℕ}
    (hfetch : ∀ page offset items, fetchPage page offset = .ok items →
      items = slice (lists page) offset (sizes page))
    (hlists : ∀ page, (lists page).Pairwise (fun a b => before a.id b.id)) (hsizes : ∀ page, 2 ≤ sizes page)
    {n : ℕ} {s : PagesState} (h : Knows before s id) (hpage : 1 ≤ s.page) {read : TradePagesRead}
    (hstays : ∀ page, 1 ≤ page → page ≤ read.pagesRead →
      ∃ t ∈ lists page, t.id = id ∧ ∀ y ∈ lists page, before y.id t.id → stopAt y = false)
    (hread : PagesState.readPages fetchPage stopAt n s = .ok read)
    (hcovered : read.covered = true) : HasId read.trades id := by
  induction n generalizing s with
  | zero =>
    obtain rfl := Except.ok.inj hread
    simp at hcovered
  | succ n ih =>
    obtain ⟨t, ht, hid, hgoes⟩ := hstays s.page hpage (pagesRead_ge hread hcovered)
    simp only [PagesState.readPages] at hread
    split at hread
    · simp at hread
    rename_i items hitems
    obtain rfl := hfetch _ _ _ hitems
    split at hread
    · simp at hread
    · rename_i s' hres
      have hnext := (h.readPage (hlists s.page) (hsizes s.page) ht hid hgoes hres).1 s' rfl
      refine ih hnext ?_ hread
      rcases readPage_ok hres with ⟨_, _, hbad⟩ | ⟨_, _, _, _, ⟨_, _, hbad⟩ | ⟨_, hbad⟩ |
        ⟨_, s'', hs'', _, _, hpage'⟩⟩
      · simp at hbad
      · simp at hbad
      · simp at hbad
      · obtain rfl := Sum.inl.inj hs''
        omega
    · rename_i read' hres
      obtain rfl := Except.ok.inj hread
      exact (h.readPage (hlists s.page) (hsizes s.page) ht hid hgoes hres).2 _ rfl

omit hirrefl htrans in
theorem Knows.initial : Knows before .initial id := by
  refine ⟨fun _ => ⟨rfl, rfl⟩, .inr ⟨?_, ?_⟩⟩
  · intro t ht
    simp [PagesState.initial] at ht
  · intro p hp
    simp [PagesState.initial] at hp

/-- **A covered read has every trade that stayed on the list**, however the list changed between the
pages: each page is a slice of two or more of the list as it then is. -/
theorem covered_reads {ε : Type} {fetchPage : ℕ → ℕ → Except ε (List BrokerTrade)}
    {lists : ℕ → List BrokerTrade} {sizes : ℕ → ℕ} {windowStart : UnixMs} {maxPages : ℕ}
    (hfetch : ∀ page offset items, fetchPage page offset = .ok items →
      items = slice (lists page) offset (sizes page))
    (hlists : ∀ page, NewestFirst before (lists page)) (hsizes : ∀ page, 2 ≤ sizes page)
    {read : TradePagesRead}
    (hstays : ∀ page, 1 ≤ page → page ≤ read.pagesRead →
      ∃ t ∈ lists page, t.id = id ∧ windowStart ≤ t.openTimestamp)
    (hread : readTradePages fetchPage maxPages (fun t => decide (t.openTimestamp < windowStart)) =
      .ok read)
    (hcovered : read.covered = true) : HasId read.trades id := by
  refine Knows.initial.readPages hfetch (fun page => (hlists page).sorted) hsizes le_rfl ?_ hread hcovered
  intro page hfirst hlast
  obtain ⟨t, ht, hid, hwindow⟩ := hstays page hfirst hlast
  refine ⟨t, ht, hid, fun y hy hyt => decide_eq_false ?_⟩
  exact not_lt.mpr (hwindow.trans ((hlists page).newest y hy t ht hyt))

end Reading

/-! ## One page -/

section FirstPage

variable {ε : Type} {fetchPage : ℕ → ℕ → Except ε (List BrokerTrade)} {stopAt : BrokerTrade → Bool}

/-- A read that one page covered: the page was empty, or it reached a trade to stop at. -/
theorem first_page_of_covered {maxPages : ℕ} {read : TradePagesRead}
    (hread : readTradePages fetchPage maxPages stopAt = .ok read) (hcovered : read.covered = true)
    (hone : read.pagesRead = 1) :
    ∃ items, fetchPage 1 0 = .ok items ∧ read.trades = items ∧
      (items = [] ∨ items.any stopAt = true) := by
  have hfilter : ∀ items : List BrokerTrade,
      items.filter (fun t => !PagesState.initial.seen t.id) = items := by
    intro items
    refine List.filter_eq_self.mpr (fun t _ => ?_)
    simp [PagesState.seen, PagesState.initial]
  cases maxPages with
  | zero =>
    obtain rfl := Except.ok.inj hread
    simp at hcovered
  | succ n =>
    simp only [readTradePages, PagesState.readPages] at hread
    split at hread
    · simp at hread
    rename_i items hitems
    refine ⟨items, hitems, ?_⟩
    split at hread
    · simp at hread
    · -- a second page was read
      rename_i s' hres
      have hge := pagesRead_ge hread hcovered
      rcases readPage_ok hres with ⟨_, _, hbad⟩ | ⟨_, _, _, _, ⟨_, _, hbad⟩ | ⟨_, hbad⟩ |
        ⟨_, s'', hs'', _, _, hpage'⟩⟩
      · simp at hbad
      · simp at hbad
      · simp at hbad
      · obtain rfl := Sum.inl.inj hs''
        have hstart : PagesState.initial.page = 1 := rfl
        omega
    · rename_i read' hres
      obtain rfl := Except.ok.inj hread
      rcases readPage_ok hres with ⟨hempty, _, hr⟩ | ⟨first, rest, hcons, _, ⟨hfresh, _, _⟩ |
        ⟨hstop, hr⟩ | ⟨_, s'', hs'', _, _, _⟩⟩
      · obtain rfl := Sum.inr.inj hr
        exact ⟨hempty.symm, .inl hempty⟩
      · rw [hfilter, hcons] at hfresh
        simp at hfresh
      · obtain rfl := Sum.inr.inj hr
        refine ⟨?_, .inr hstop⟩
        show PagesState.initial.merged items = items
        rw [PagesState.merged, hfilter]
        rfl
      · simp at hs''

/-- **A read that one page covered has every trade of the list inside the window**, for any page size. -/
theorem first_page_reads {before : String → String → Prop} {l : List BrokerTrade} {n maxPages : ℕ}
    {windowStart : UnixMs} {t : BrokerTrade}
    (hfetch : ∀ items, fetchPage 1 0 = .ok items → items = slice l 0 n) (hl : NewestFirst before l)
    (hn : 1 ≤ n) (ht : t ∈ l) (hwindow : windowStart ≤ t.openTimestamp) {read : TradePagesRead}
    (hread : readTradePages fetchPage maxPages (fun t => decide (t.openTimestamp < windowStart)) =
      .ok read)
    (hcovered : read.covered = true) (hone : read.pagesRead = 1) : t ∈ read.trades := by
  obtain ⟨items, hitems, htrades, hend⟩ := first_page_of_covered hread hcovered hone
  obtain rfl := hfetch items hitems
  rw [htrades]
  rcases mem_slice_zero_or_after (n := n) hl.sorted ht with hmem | ⟨hall, hfull⟩
  · exact hmem
  · rcases hend with hempty | hstop
    · rw [hempty, List.length_nil] at hfull
      omega
    · obtain ⟨y, hy, hold⟩ := List.any_eq_true.mp hstop
      exact absurd (by simpa using hold) (stop_of_slice hl ht hwindow hy (hall y hy))

/-- Every trade of a read came on one of its pages. -/
theorem mem_of_readPages {n : ℕ} {s : PagesState} {read : TradePagesRead}
    (hread : PagesState.readPages fetchPage stopAt n s = .ok read) {t : BrokerTrade}
    (ht : t ∈ read.trades) :
    t ∈ s.trades ∨ ∃ page offset items, fetchPage page offset = .ok items ∧ t ∈ items := by
  induction n generalizing s with
  | zero =>
    obtain rfl := Except.ok.inj hread
    exact .inl ht
  | succ n ih =>
    simp only [PagesState.readPages] at hread
    split at hread
    · simp at hread
    rename_i items hitems
    have hmerged : t ∈ s.merged items →
        t ∈ s.trades ∨ ∃ page offset items, fetchPage page offset = .ok items ∧ t ∈ items := by
      intro hm
      rcases List.mem_append.mp hm with hm | hm
      · exact .inl hm
      · exact .inr ⟨_, _, items, hitems, List.mem_of_mem_filter hm⟩
    split at hread
    · simp at hread
    · rename_i s' hres
      rcases readPage_ok hres with ⟨_, _, hbad⟩ | ⟨_, _, _, _, ⟨_, _, hbad⟩ | ⟨_, hbad⟩ |
        ⟨_, s'', hs'', htrades, _, _⟩⟩
      · simp at hbad
      · simp at hbad
      · simp at hbad
      · obtain rfl := Sum.inl.inj hs''
        rcases ih hread with hm | hm
        · rw [htrades] at hm
          exact hmerged hm
        · exact .inr hm
    · rename_i read' hres
      obtain rfl := Except.ok.inj hread
      rcases readPage_ok hres with ⟨_, _, hr⟩ | ⟨_, _, _, _, ⟨_, _, hr⟩ | ⟨_, hr⟩ |
        ⟨_, s'', hs'', _, _, _⟩⟩
      · obtain rfl := Sum.inr.inj hr
        exact .inl ht
      · obtain rfl := Sum.inr.inj hr
        exact .inl ht
      · obtain rfl := Sum.inr.inj hr
        exact hmerged ht
      · simp at hs''

end FirstPage

end Binarius
