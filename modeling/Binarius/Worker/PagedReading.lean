import Mathlib.Tactic
import Binarius.Worker.TradePages

/-!
# Worker.PagedReading — reading a list page by page while it changes

The order of the list is any strict order of the ids, the pages are slices of any sizes from two on, and
the caller stops at any predicate that is upward closed in the order.

* `covered_read_complete`: **a covered read has every trade that stayed before the first one to stop at**,
  each id once.
* `StaticRead`: what the loop holds of a list that does not change; `static_read_prefix`: **such a list is
  read as a prefix**, and no page is refused.
* `paged_reading`: both.
-/

namespace Binarius

open Lib

section Paged

variable {ε : Type} {fetchPage : ℕ → ℕ → Except ε (List BrokerTrade)} {stopAt : BrokerTrade → Bool}

/-! ## What the trades of a read keep -/

theorem page_le_pagesRead {n : ℕ} {s : PagesState} {read : TradePagesRead} (hpage : 1 ≤ s.page)
    (hread : PagesState.readPages fetchPage stopAt n s = .ok read) : s.page ≤ read.pagesRead + 1 := by
  induction n generalizing s with
  | zero =>
    obtain rfl := Except.ok.inj hread
    show s.page ≤ s.page - 1 + 1
    omega
  | succ n ih =>
    simp only [PagesState.readPages] at hread
    split at hread
    · cases hread
    split at hread
    · cases hread
    · rename_i s' hres
      rcases readPage_ok hres with ⟨_, _, hbad⟩ | ⟨_, _, _, _, ⟨_, _, hbad⟩ | ⟨_, hbad⟩ |
        ⟨_, s'', hs'', _, _, hpage'⟩⟩
      · cases hbad
      · cases hbad
      · cases hbad
      · obtain rfl := Sum.inl.inj hs''
        have hle := ih (by omega) hread
        omega
    · rename_i read' hres
      obtain rfl := Except.ok.inj hread
      rcases readPage_ok hres with ⟨_, _, hr⟩ | ⟨_, _, _, _, ⟨_, _, hr⟩ | ⟨_, hr⟩ | ⟨_, s'', hs'', _, _, _⟩⟩
      · obtain rfl := Sum.inr.inj hr
        exact Nat.le_succ _
      · obtain rfl := Sum.inr.inj hr
        exact Nat.le_succ _
      · obtain rfl := Sum.inr.inj hr
        exact Nat.le_succ _
      · cases hs''

/-- What merging a page keeps of the trades, every read keeps. -/
theorem readPages_trades {Q : List BrokerTrade → Prop} {n : ℕ} {s : PagesState} {read : TradePagesRead}
    (hread : PagesState.readPages fetchPage stopAt n s = .ok read) (hpage : 1 ≤ s.page)
    (hmerge : ∀ (s : PagesState) (items : List BrokerTrade), 1 ≤ s.page → s.page ≤ read.pagesRead →
      fetchPage s.page s.offset = .ok items → Q s.trades → Q (s.merged items))
    (h : Q s.trades) : Q read.trades := by
  induction n generalizing s with
  | zero =>
    obtain rfl := Except.ok.inj hread
    exact h
  | succ n ih =>
    simp only [PagesState.readPages] at hread
    split at hread
    · cases hread
    rename_i items hitems
    split at hread
    · cases hread
    · rename_i s' hres
      rcases readPage_ok hres with ⟨_, _, hbad⟩ | ⟨_, _, _, _, ⟨_, _, hbad⟩ | ⟨_, hbad⟩ |
        ⟨_, s'', hs'', htrades, _, hpage'⟩⟩
      · cases hbad
      · cases hbad
      · cases hbad
      · obtain rfl := Sum.inl.inj hs''
        have hle := page_le_pagesRead (by omega) hread
        refine ih hread (by omega) ?_
        rw [htrades]
        exact hmerge s items hpage (by omega) hitems h
    · rename_i read' hres
      obtain rfl := Except.ok.inj hread
      rcases readPage_ok hres with ⟨_, _, hr⟩ | ⟨_, _, _, _, ⟨_, _, hr⟩ | ⟨_, hr⟩ | ⟨_, s'', hs'', _, _, _⟩⟩
      · obtain rfl := Sum.inr.inj hr
        exact h
      · obtain rfl := Sum.inr.inj hr
        exact h
      · obtain rfl := Sum.inr.inj hr
        exact hmerge s items hpage le_rfl hitems h
      · cases hs''

theorem merged_nodup {s : PagesState} {items : List BrokerTrade} (h : (s.trades.map (·.id)).Nodup)
    (hitems : (items.map (·.id)).Nodup) : ((s.merged items).map (·.id)).Nodup := by
  unfold PagesState.merged
  rw [List.map_append, List.nodup_append]
  refine ⟨h, hitems.sublist (List.filter_sublist.map _), ?_⟩
  intro id hid id' hid' heq
  subst heq
  obtain ⟨t, ht, hidt⟩ := List.mem_map.mp hid'
  have hunseen := (List.mem_filter.mp ht).2
  have hseen : s.seen t.id = true := by
    rw [hidt, PagesState.seen]
    exact List.contains_iff_mem.mpr hid
  rw [hseen] at hunseen
  cases hunseen

variable {before : String → String → Prop} [hirrefl : Std.Irrefl before] [htrans : IsTrans String before]

omit htrans in
theorem ids_nodup {l : List BrokerTrade} (hl : l.Pairwise (fun a b => before a.id b.id)) :
    (l.map (·.id)).Nodup := by
  rw [List.Nodup, List.pairwise_map]
  refine hl.imp (fun {a b} hab heq => ?_)
  rw [heq] at hab
  exact hirrefl.irrefl _ hab

omit htrans in
/-- An id stands for one row of the list. -/
theorem eq_of_id {l : List BrokerTrade} (hl : l.Pairwise (fun a b => before a.id b.id)) {t u : BrokerTrade}
    (ht : t ∈ l) (hu : u ∈ l) (hid : u.id = t.id) : u = t :=
  List.inj_on_of_nodup_map (ids_nodup hl) hu ht hid

/-! ## A covered read -/

/-- **A covered read has every trade that stayed** on the list and is not one to stop at, and each id
once. -/
theorem covered_read_complete {lists : ℕ → List BrokerTrade} {sizes : ℕ → ℕ} {maxPages : ℕ}
    (hfetch : ∀ page offset items, fetchPage page offset = .ok items →
      items = slice (lists page) offset (sizes page))
    (hlists : ∀ page, (lists page).Pairwise (fun a b => before a.id b.id)) (hsizes : ∀ page, 2 ≤ sizes page)
    (hstop : ∀ page, ∀ y ∈ lists page, ∀ z ∈ lists page, before y.id z.id → stopAt y = true →
      stopAt z = true)
    {read : TradePagesRead} (hread : readTradePages fetchPage maxPages stopAt = .ok read)
    (hcovered : read.covered = true) :
    (∀ t, stopAt t = false → (∀ page, 1 ≤ page → page ≤ read.pagesRead → t ∈ lists page) →
      t ∈ read.trades) ∧ (read.trades.map (·.id)).Nodup := by
  refine ⟨fun t hgoes hstays => ?_, ?_⟩
  · have hhas : HasId read.trades t.id := by
      refine Knows.initial.readPages hfetch hlists hsizes le_rfl (fun page hfirst hlast => ?_) hread hcovered
      refine ⟨t, hstays page hfirst hlast, rfl, fun y hy hyt => ?_⟩
      by_contra hyes
      rw [hstop page y hy t (hstays page hfirst hlast) hyt (by simpa using hyes)] at hgoes
      cases hgoes
    obtain ⟨u, hu, hid⟩ := hhas
    -- the row read under the id is the row that stayed
    have hrows : ∀ u ∈ read.trades, u.id = t.id → u = t := by
      refine readPages_trades (Q := fun l => ∀ u ∈ l, u.id = t.id → u = t) hread le_rfl ?_ ?_
      · intro s items hfirst hlast hitems hold u hu hid
        obtain rfl := hfetch _ _ _ hitems
        rcases List.mem_append.mp hu with hu | hu
        · exact hold u hu hid
        · have hu' := mem_of_mem_slice (List.mem_of_mem_filter hu)
          exact eq_of_id (hlists _) (hstays _ hfirst hlast) hu' hid
      · intro u hu
        exact absurd hu List.not_mem_nil
    rw [← hrows u hu hid]
    exact hu
  · refine readPages_trades (Q := fun l => (l.map (·.id)).Nodup) hread le_rfl ?_ List.nodup_nil
    intro s items _ _ hitems hnodup
    obtain rfl := hfetch _ _ _ hitems
    have hslice : (slice (lists s.page) s.offset (sizes s.page)).Sublist (lists s.page) :=
      (List.take_sublist _ _).trans (List.drop_sublist _ _)
    exact merged_nodup hnodup ((ids_nodup (hlists _)).sublist (hslice.map _))

end Paged

/-! ## A list that does not change -/

section Static

variable {stopAt : BrokerTrade → Bool} {l : List BrokerTrade}

/-- No id twice, newest first. -/
structure FixedList (l : List BrokerTrade) : Prop where
  nodup : (l.map (·.id)).Nodup
  newest : l.Pairwise (fun a b => b.openTimestamp ≤ a.openTimestamp)

/-- What the loop holds of the list before a page: nothing, or all up to the trade the next page starts
with, or all of a list of one trade. -/
inductive StaticRead (l : List BrokerTrade) (s : PagesState) : Prop
  | first (previous : s.previous = none) (trades : s.trades = []) (offset : s.offset = 0)
  | overlap (p : PreviousPage) (last : BrokerTrade) (previous : s.previous = some p) (long : 2 ≤ p.length)
      (there : l[s.offset]? = some last) (trades : s.trades = l.take (s.offset + 1))
      (lastTs : p.lastTs = last.openTimestamp)
  | one (p : PreviousPage) (previous : s.previous = some p) (short : p.length = 1)
      (trades : s.trades = l) (offset : l.length ≤ s.offset)

theorem growing_eq_false {items : List BrokerTrade}
    (h : items.Pairwise (fun a b => b.openTimestamp ≤ a.openTimestamp)) : PagesState.growing items = false := by
  induction items with
  | nil => rfl
  | cons a items ih =>
    obtain ⟨hhead, htail⟩ := List.pairwise_cons.mp h
    cases items with
    | nil => rfl
    | cons b items =>
      have hle : b.openTimestamp ≤ a.openTimestamp := hhead b List.mem_cons_self
      show (decide (a.openTimestamp < b.openTimestamp) || PagesState.growing (b :: items)) = false
      rw [ih htail, decide_eq_false (not_lt.mpr hle)]
      rfl

theorem readPage_cons {s : PagesState} {first : BrokerTrade} {rest fresh : List BrokerTrade}
    (hgrowing : PagesState.growing (first :: rest) = false)
    (hfresh : (first :: rest).filter (fun t => !s.seen t.id) = fresh)
    (hviolation : s.violation first fresh = none) :
    s.readPage stopAt (first :: rest) =
      if fresh = [] then
        if (first :: rest).length = 1 then
          .ok (.inr { trades := s.trades, covered := true, pagesRead := s.page })
        else .error .noProgress
      else if (first :: rest).any stopAt then
        .ok (.inr { trades := s.trades ++ fresh, covered := true, pagesRead := s.page })
      else
        .ok (.inl
          { trades := s.trades ++ fresh
            previous := some
              { lastTs := ((first :: rest).getLast (List.cons_ne_nil _ _)).openTimestamp
                length := (first :: rest).length }
            offset := s.offset + (if 2 ≤ (first :: rest).length then (first :: rest).length - 1 else 1)
            page := s.page + 1 }) := by
  simp only [PagesState.readPage, hgrowing, hfresh, hviolation, Bool.false_eq_true, if_false]

theorem unseen_of_not_mem {s : PagesState} {t : BrokerTrade} (h : t.id ∉ s.trades.map (·.id)) :
    s.seen t.id = false := by
  rw [PagesState.seen, List.contains_eq_mem]
  exact decide_eq_false h

/-- What the loop goes on with, or ends with. -/
def StaticOk (l : List BrokerTrade) : PagesState ⊕ TradePagesRead → Prop
  | .inl s => StaticRead l s
  | .inr read => read.trades <+: l

/-- A page whose unread trades go on where the read ones end. -/
theorem static_page {s : PagesState} {first : BrokerTrade} {rest fresh : List BrokerTrade} {n : ℕ}
    (hn : 2 ≤ n) (hitems : slice l s.offset n = first :: rest)
    (hgrowing : PagesState.growing (first :: rest) = false)
    (hfresh : (first :: rest).filter (fun t => !s.seen t.id) = fresh)
    (hviolation : s.violation first fresh = none) (hnone : fresh = [] → rest = [])
    (hall : s.trades ++ fresh = l.take (s.offset + (first :: rest).length)) :
    ∃ res, s.readPage stopAt (first :: rest) = .ok res ∧ StaticOk l res := by
  rw [readPage_cons hgrowing hfresh hviolation]
  have hbegins : s.trades ++ fresh <+: l := by
    rw [hall]
    exact List.take_prefix _ _
  by_cases hempty : fresh = []
  · -- only the overlap came back
    rw [if_pos hempty, hnone hempty]
    refine ⟨_, rfl, ?_⟩
    rw [hempty, List.append_nil] at hbegins
    exact hbegins
  rw [if_neg hempty]
  by_cases hstop : (first :: rest).any stopAt = true
  · rw [if_pos hstop]
    exact ⟨_, rfl, hbegins⟩
  rw [if_neg hstop]
  refine ⟨_, rfl, ?_⟩
  by_cases htwo : 2 ≤ (first :: rest).length
  · have hne : slice l s.offset n ≠ [] := by
      rw [hitems]
      exact List.cons_ne_nil _ _
    have hlast := slice_getLast hne
    simp only [hitems] at hlast
    rw [if_pos htwo]
    refine .overlap _ _ rfl htwo hlast ?_ rfl
    show s.trades ++ fresh = _
    rw [hall]
    congr 1
  · -- one trade on a page of two or more: it is the list's last
    have hone : (first :: rest).length = 1 := by
      rw [List.length_cons] at htwo ⊢
      omega
    have hend : l.length ≤ s.offset + 1 := by
      rw [← hitems, slice, List.length_take, List.length_drop] at hone
      omega
    rw [if_neg htwo]
    refine .one _ rfl hone ?_ hend
    show s.trades ++ fresh = l
    rw [hall, hone, List.take_of_length_le hend]

/-- **One page of a list that does not change.** -/
theorem StaticRead.readPage (hl : FixedList l) {s : PagesState} (h : StaticRead l s) {n : ℕ} (hn : 2 ≤ n) :
    ∃ res, s.readPage stopAt (slice l s.offset n) = .ok res ∧ StaticOk l res := by
  have hsub : (slice l s.offset n).Sublist l := (List.take_sublist _ _).trans (List.drop_sublist _ _)
  have hgrowing := growing_eq_false (hl.newest.sublist hsub)
  cases h with
  | first hprevious htrades hoffset =>
    rw [hoffset] at hgrowing ⊢
    cases hitems : slice l 0 n with
    | nil =>
      refine ⟨.inr { trades := s.trades, covered := true, pagesRead := s.page }, ?_, ?_⟩
      · simp only [PagesState.readPage, hprevious, Option.any_none, Bool.false_eq_true, if_false]
      · show s.trades <+: l
        rw [htrades]
        exact List.nil_prefix
    | cons first rest =>
      have hfresh : (first :: rest).filter (fun t => !s.seen t.id) = first :: rest := by
        refine List.filter_eq_self.mpr (fun t _ => ?_)
        rw [unseen_of_not_mem (by rw [htrades]; exact List.not_mem_nil)]
        rfl
      have hviolation : s.violation first (first :: rest) = none := by
        simp only [PagesState.violation, hprevious]
      have hall : l.take 0 ++ slice l 0 n = l.take (0 + (slice l 0 n).length) := take_append_slice
      rw [hitems] at hgrowing hall
      refine static_page hn (by rw [hoffset]; exact hitems) hgrowing hfresh hviolation
        (fun h => absurd h (List.cons_ne_nil _ _)) ?_
      rw [htrades, hoffset]
      exact hall
  | overlap p last hprevious hlong hthere htrades hlastTs =>
    have hitems := slice_cons hthere (show 1 ≤ n by omega)
    rw [hitems] at hgrowing ⊢
    -- the page starts with the last trade read; all behind it is unread
    have hread : last ∈ s.trades := by
      rw [htrades, List.take_add_one, hthere]
      exact List.mem_append_right _ (List.mem_singleton.mpr rfl)
    have hseen : s.seen last.id = true := seen_eq_true.mpr ⟨last, hread, rfl⟩
    have hunseen : ∀ t ∈ slice l (s.offset + 1) (n - 1), s.seen t.id = false := by
      intro t ht
      refine unseen_of_not_mem (fun hmem => ?_)
      have hnodup := hl.nodup
      rw [← List.take_append_drop (s.offset + 1) l, List.map_append, List.nodup_append] at hnodup
      rw [htrades] at hmem
      exact hnodup.2.2 _ hmem _ (List.mem_map_of_mem (List.mem_of_mem_take ht)) rfl
    have hfresh : (last :: slice l (s.offset + 1) (n - 1)).filter (fun t => !s.seen t.id) =
        slice l (s.offset + 1) (n - 1) := by
      rw [List.filter_cons_of_neg (by rw [hseen]; exact Bool.false_ne_true)]
      refine List.filter_eq_self.mpr (fun t ht => ?_)
      rw [hunseen t ht]
      rfl
    have hviolation : s.violation last (slice l (s.offset + 1) (n - 1)) = none := by
      have hnotOne : ¬ (p.length = 1 ∨ s.seen last.id = false) := by
        rw [hseen]
        simp only [Bool.true_eq_false, or_false]
        omega
      have hseam : (slice l (s.offset + 1) (n - 1)).head?.any (fun t => decide (p.lastTs < t.openTimestamp)) =
          false := by
        have hnewest := hl.newest.sublist hsub
        rw [hitems, List.pairwise_cons] at hnewest
        cases hrest : slice l (s.offset + 1) (n - 1) with
        | nil => rfl
        | cons t rest =>
          have hle := hnewest.1 t (by rw [hrest]; exact List.mem_cons_self)
          rw [List.head?_cons, Option.any_some, hlastTs]
          exact decide_eq_false (not_lt.mpr hle)
      simp only [PagesState.violation, hprevious, if_neg hnotOne, hseam, Bool.false_eq_true, if_false]
    refine static_page hn hitems hgrowing hfresh hviolation id ?_
    rw [htrades, take_append_slice, List.length_cons]
    congr 1
    omega
  | one p hprevious hshort htrades hoffset =>
    rw [slice_eq_nil hoffset]
    refine ⟨.inr { trades := s.trades, covered := true, pagesRead := s.page }, ?_, ?_⟩
    · have hfalse : ¬ 2 ≤ p.length := by omega
      simp only [PagesState.readPage, hprevious, Option.any_some, decide_eq_false hfalse, Bool.false_eq_true,
        if_false]
    · show s.trades <+: l
      rw [htrades]

/-- The loop over a list that does not change. -/
theorem StaticRead.readPages {ε : Type} {fetchPage : ℕ → ℕ → Except ε (List BrokerTrade)} {sizes : ℕ → ℕ}
    (hl : FixedList l) (hsizes : ∀ page, 2 ≤ sizes page)
    (hfetch : ∀ page offset, fetchPage page offset = .ok (slice l offset (sizes page))) {n : ℕ}
    {s : PagesState} (h : StaticRead l s) :
    ∃ read, PagesState.readPages fetchPage stopAt n s = .ok read ∧ read.trades <+: l := by
  induction n generalizing s with
  | zero =>
    refine ⟨_, rfl, ?_⟩
    show s.trades <+: l
    cases h with
    | first _ htrades _ =>
      rw [htrades]
      exact List.nil_prefix
    | overlap _ _ _ _ _ htrades _ =>
      rw [htrades]
      exact List.take_prefix _ _
    | one _ _ _ htrades _ => rw [htrades]
  | succ n ih =>
    have hpage : ∃ res, s.readPage stopAt (slice l s.offset (sizes s.page)) = .ok res ∧ StaticOk l res :=
      h.readPage hl (hsizes s.page)
    obtain ⟨res, hres, hok⟩ := hpage
    simp only [PagesState.readPages, hfetch, hres]
    cases res with
    | inl s' => exact ih hok
    | inr read => exact ⟨read, rfl, hok⟩

/-- **A list that does not change is read as a prefix**, and no page is refused. -/
theorem static_read_prefix {ε : Type} {fetchPage : ℕ → ℕ → Except ε (List BrokerTrade)} {sizes : ℕ → ℕ}
    (hl : FixedList l) (hsizes : ∀ page, 2 ≤ sizes page)
    (hfetch : ∀ page offset, fetchPage page offset = .ok (slice l offset (sizes page))) (maxPages : ℕ) :
    ∃ read, readTradePages fetchPage maxPages stopAt = .ok read ∧ read.trades <+: l :=
  StaticRead.readPages hl hsizes hfetch (.first rfl rfl rfl)

end Static

/-! ## Both -/

/-- **Paged reading of a changing list**: a covered read misses no trade that stayed before the first one
to stop at and has each id once; a list that does not change, newest first, is read as a prefix. -/
theorem paged_reading {ε : Type} {fetchPage : ℕ → ℕ → Except ε (List BrokerTrade)} {lists : ℕ → List BrokerTrade}
    {sizes : ℕ → ℕ} {before : String → String → Prop} [Std.Irrefl before] [IsTrans String before]
    (hfetch : ∀ page offset items, fetchPage page offset = .ok items →
      items = slice (lists page) offset (sizes page))
    (hlists : ∀ page, (lists page).Pairwise (fun a b => before a.id b.id)) (hsizes : ∀ page, 2 ≤ sizes page)
    (stopAt : BrokerTrade → Bool)
    (hstop : ∀ page, ∀ y ∈ lists page, ∀ z ∈ lists page, before y.id z.id → stopAt y = true →
      stopAt z = true) (maxPages : ℕ) :
    (∀ read, readTradePages fetchPage maxPages stopAt = .ok read → read.covered = true →
      (∀ t, stopAt t = false → (∀ page, 1 ≤ page → page ≤ read.pagesRead → t ∈ lists page) →
        t ∈ read.trades) ∧ (read.trades.map (·.id)).Nodup) ∧
    ∀ l, FixedList l → ∃ read, readTradePages (ε := ε)
      (fun page offset => .ok (slice l offset (sizes page))) maxPages stopAt = .ok read ∧ read.trades <+: l :=
  ⟨fun _ hread hcovered => covered_read_complete hfetch hlists hsizes hstop hread hcovered,
    fun _ hl => static_read_prefix hl hsizes (fun _ _ => rfl) maxPages⟩

/-- A row of its id and time. -/
def pagedRow (id : String) (openTimestamp : ℕ) : BrokerTrade where
  id := id
  assetId := 1
  action := .up
  amount := ['1', '0']
  openTimestamp := openTimestamp
  isDemo := true
  closed := none

/-- The oldest but one leaves the list after the first page. -/
def shrinkingList (page : ℕ) : List BrokerTrade :=
  if page = 1 then [pagedRow "d" 4, pagedRow "c" 3, pagedRow "b" 2, pagedRow "a" 1]
  else [pagedRow "d" 4, pagedRow "c" 3, pagedRow "a" 1]

theorem paged_reading_shrinking :
    ∃ read, readTradePages (ε := Unit) (fun page offset => .ok (slice (shrinkingList page) offset 2)) 5
      (fun _ => false) = .ok read ∧ pagedRow "a" 1 ∈ read.trades := by
  have hlists : ∀ page, (shrinkingList page).Pairwise (fun a b => b.id < a.id) := by
    intro page
    unfold shrinkingList
    split <;> decide +kernel
  have hstays : ∀ page, pagedRow "a" 1 ∈ shrinkingList page := by
    intro page
    unfold shrinkingList
    split <;> simp
  have hall := @paged_reading Unit (fun page offset => .ok (slice (shrinkingList page) offset 2)) shrinkingList
    (fun _ => 2) (fun a b => b < a) ⟨String.lt_irrefl⟩ ⟨fun _ _ _ hab hbc => String.lt_trans hbc hab⟩
    (fun _ _ _ h => (Except.ok.inj h).symm) hlists (fun _ => le_rfl) (fun _ => false)
    (fun _ _ _ _ _ _ h => absurd h Bool.false_ne_true) 5
  exact ⟨_, rfl, (hall.1 _ rfl rfl).1 _ rfl (fun page _ _ => hstays page)⟩

/-- A list in the order of its ids, but older first, is refused; one that holds a row twice gives it
twice. -/
theorem paged_reading_orders :
    ([pagedRow "b" 1, pagedRow "a" 2].Pairwise (fun a b => b.id < a.id) ∧
      readTradePages (ε := Unit) (fun _ offset => .ok (slice [pagedRow "b" 1, pagedRow "a" 2] offset 2)) 5
        (fun _ => false) = .error (.violation .order)) ∧
    ([pagedRow "a" 1, pagedRow "a" 1].Pairwise (fun a b => b.id ≤ a.id) ∧
      readTradePages (ε := Unit) (fun _ offset => .ok (slice [pagedRow "a" 1, pagedRow "a" 1] offset 2)) 5
        (fun _ => false) =
          .ok { trades := [pagedRow "a" 1, pagedRow "a" 1], covered := true, pagesRead := 2 }) := by
  refine ⟨⟨by decide +kernel, rfl⟩, ⟨?_, rfl⟩⟩
  decide +kernel

end Binarius
