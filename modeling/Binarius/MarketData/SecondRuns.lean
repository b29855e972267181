import Mathlib.Tactic
import Binarius.Lib.Runs
import Binarius.MarketData.Seconds

/-!
# MarketData.SecondRuns — what the second series holds, over whole runs

The log of a run keeps, in order, the ticks applied, the drops, and what the writers told of the pairs.
A second's value is a function of its pair's log up to the second's closing (`closeOf`).

* `PairInv`: what every writer keeps of a pair; `PairInv.closeNext`, `.reset`, `.apply` are its steps.
* `second_values`: **the values, the announcements and the readers over every run**.
-/

namespace Binarius

open Lib

/-! ## The log of a pair -/

/-- What happened to one pair. -/
inductive PairEntry
  | applied (tick : Tick) (receivedAtMs : ℚ)
  | dropped
  | closed (second : ℤ)
  | reset
  deriving DecidableEq

def PairEntry.tick? : PairEntry → Option (Tick × ℚ)
  | applied tick receivedAtMs => some (tick, receivedAtMs)
  | _ => none

def PairEntry.second? : PairEntry → Option ℤ
  | closed second => some second
  | _ => none

/-- The applied ticks, with their receipts, in the order of arrival. -/
def ticksOf (l : List PairEntry) : List (Tick × ℚ) := l.filterMap PairEntry.tick?

/-- The seconds announced. -/
def secondsOf (l : List PairEntry) : List ℤ := l.filterMap PairEntry.second?

/-- The newer of two ticks, the later arrival among ties. -/
def newer (best : Option (Tick × ℚ)) (t : Tick × ℚ) : Option (Tick × ℚ) :=
  match best with
  | none => some t
  | some b => if b.1.timestamp ≤ t.1.timestamp then some t else some b

/-- The newest tick. -/
def newestTick (ts : List (Tick × ℚ)) : Option (Tick × ℚ) := ts.foldl newer none

/-- The newest applied tick at or before the end of a second. -/
def newestUntil (s : ℤ) (l : List PairEntry) : Option (Tick × ℚ) :=
  newestTick ((ticksOf l).filter (fun t => t.1.timestamp ≤ s))

/-- The last drop is not yet followed by an applied tick. -/
def dropPending (l : List PairEntry) : Bool :=
  l.foldl (fun pending entry => match entry with
    | .dropped => true
    | .applied _ _ => false
    | _ => pending) false

/-- A tick as the series keeps it: its price rounded to the pair's digits. -/
def rounded (digits : ℕ) (t : Tick × ℚ) : LastTick where
  price := toFixed digits t.1.price
  timestamp := t.1.timestamp
  receivedAtMs := t.2

/-- The tick whose price is the close of a second that closed after `l`: none is NaN. -/
def closeOf (digits : ℕ) (s : ℤ) (l : List PairEntry) : Option LastTick :=
  if dropPending l then none else (newestUntil s l).map (rounded digits)

section PairLog

variable {l : List PairEntry} {e : PairEntry}

@[simp] theorem ticksOf_snoc (l : List PairEntry) (e : PairEntry) :
    ticksOf (l ++ [e]) = ticksOf l ++ (e.tick?).toList := by
  cases e <;> simp [ticksOf, PairEntry.tick?]

@[simp] theorem secondsOf_snoc (l : List PairEntry) (e : PairEntry) :
    secondsOf (l ++ [e]) = secondsOf l ++ (e.second?).toList := by
  cases e <;> simp [secondsOf, PairEntry.second?]

theorem mem_secondsOf {s : ℤ} : s ∈ secondsOf l ↔ PairEntry.closed s ∈ l := by
  unfold secondsOf
  rw [List.mem_filterMap]
  constructor
  · rintro ⟨e, he, hs⟩
    cases e with
    | closed second =>
      obtain rfl := Option.some.inj hs
      exact he
    | applied tick receivedAtMs => exact nomatch hs
    | dropped => exact nomatch hs
    | reset => exact nomatch hs
  · intro h
    exact ⟨_, h, rfl⟩

/-- Where an entry of a longer log stands. -/
theorem snoc_split {α : Type} {l before after : List α} {e x : α} (h : l ++ [e] = before ++ x :: after) :
    (after = [] ∧ e = x ∧ l = before) ∨ ∃ after', after = after' ++ [e] ∧ l = before ++ x :: after' := by
  rcases List.eq_nil_or_concat after with rfl | ⟨after', y, rfl⟩
  · obtain ⟨hl, he⟩ := List.append_inj' h rfl
    exact .inl ⟨rfl, List.cons.inj he |>.1, hl⟩
  · have h' : l ++ [e] = (before ++ x :: after') ++ [y] := by simpa using h
    obtain ⟨hl, he⟩ := List.append_inj' h' rfl
    obtain rfl := (List.cons.inj he).1
    exact .inr ⟨after', by simp, hl⟩

/-- A second that closes once stands at one place of the log. -/
theorem split_unique {before before' after after' : List PairEntry} {s : ℤ} (h : (secondsOf l).Nodup)
    (hl : l = before ++ .closed s :: after) (hl' : l = before' ++ .closed s :: after') : before = before' := by
  have hcons : ∀ rest : List PairEntry, secondsOf (.closed s :: rest) = s :: secondsOf rest := fun _ => rfl
  have happ : ∀ front rest : List PairEntry, secondsOf (front ++ rest) = secondsOf front ++ secondsOf rest :=
    fun _ _ => List.filterMap_append
  have hfront : ∀ {front rest}, l = front ++ PairEntry.closed s :: rest → s ∉ secondsOf front := by
    intro front rest heq hmem
    rw [heq, happ, hcons, List.nodup_append] at h
    exact h.2.2 s hmem s List.mem_cons_self rfl
  rcases List.append_eq_append_iff.mp (hl.symm.trans hl') with ⟨mid, hmid, hrest⟩ | ⟨mid, hmid, hrest⟩
  · cases mid with
    | nil => simpa using hmid.symm
    | cons e mid =>
      obtain rfl := (List.cons.inj hrest).1
      refine absurd ?_ (hfront hl')
      rw [mem_secondsOf, hmid]
      simp
  · cases mid with
    | nil => simpa using hmid
    | cons e mid =>
      obtain rfl := (List.cons.inj hrest).1
      refine absurd ?_ (hfront hl)
      rw [mem_secondsOf, hmid]
      simp

theorem newestTick_snoc (ts : List (Tick × ℚ)) (t : Tick × ℚ) :
    newestTick (ts ++ [t]) = newer (newestTick ts) t := by
  unfold newestTick
  rw [List.foldl_append]
  rfl

/-- **The newest tick is newest.** -/
theorem le_newestTick {ts : List (Tick × ℚ)} {best : Tick × ℚ} (h : newestTick ts = some best) :
    ∀ t ∈ ts, t.1.timestamp ≤ best.1.timestamp := by
  induction ts using List.reverseRecOn generalizing best with
  | nil => simp
  | append_singleton ts t ih =>
    rw [newestTick_snoc] at h
    intro t' ht'
    rcases List.mem_append.mp ht' with hold | hnew
    · cases hb : newestTick ts with
      | none =>
        cases ts with
        | nil => simp at hold
        | cons head tail =>
          exfalso
          have hsome : ∀ (us : List (Tick × ℚ)) (b : Tick × ℚ), us.foldl newer (some b) ≠ none := by
            intro us
            induction us with
            | nil => simp
            | cons u us ihus =>
              intro b
              rw [List.foldl_cons, newer]
              split_ifs
              · exact ihus u
              · exact ihus b
          exact hsome tail head hb
      | some b =>
        have hle := ih hb t' hold
        rw [hb, newer] at h
        split_ifs at h with hbt
        · obtain rfl := Option.some.inj h
          exact hle.trans hbt
        · obtain rfl := Option.some.inj h
          exact hle
    · obtain rfl := List.mem_singleton.mp hnew
      cases hb : newestTick ts with
      | none =>
        rw [hb, newer] at h
        rw [Option.some.inj h]
      | some b =>
        rw [hb, newer] at h
        split_ifs at h with hbt
        · rw [Option.some.inj h]
        · obtain rfl := Option.some.inj h
          exact (not_le.mp hbt).le

/-- Ticks past a second do not count for it. -/
theorem newestUntil_append {s : ℤ} {after : List PairEntry}
    (h : ∀ t ∈ ticksOf after, (s : ℚ) < t.1.timestamp) :
    newestUntil s (l ++ after) = newestUntil s l := by
  have hnil : (ticksOf after).filter (fun t => t.1.timestamp ≤ (s : ℚ)) = [] := by
    rw [List.filter_eq_nil_iff]
    intro t ht
    simpa using h t ht
  unfold newestUntil
  rw [ticksOf, List.filterMap_append, List.filter_append]
  show newestTick ((ticksOf l).filter _ ++ (ticksOf after).filter _) = _
  rw [hnil, List.append_nil]

/-- With every tick at or before the second, the newest of all counts. -/
theorem newestUntil_eq {s : ℤ} (h : ∀ t ∈ ticksOf l, t.1.timestamp ≤ (s : ℚ)) :
    newestUntil s l = newestTick (ticksOf l) := by
  unfold newestUntil
  rw [List.filter_eq_self.mpr (fun t ht => by simpa using h t ht)]

theorem dropPending_snoc (l : List PairEntry) (e : PairEntry) :
    dropPending (l ++ [e]) = match e with
      | .dropped => true
      | .applied _ _ => false
      | _ => dropPending l := by
  unfold dropPending
  rw [List.foldl_append]
  cases e <;> rfl

end PairLog

/-! ## What every writer keeps of a pair -/

section PairInv

variable {o : SecondSeriesOptions}

/-- A pair after the log `l`. -/
structure PairInv (o : SecondSeriesOptions) (l : List PairEntry) (p : SecondPair) : Prop where
  grid : (1000 : ℤ) ∣ p.closedUntil
  last : ∃ t, newestTick (ticksOf l) = some t ∧ p.last = rounded p.digits t
  last_le : p.last.timestamp ≤ p.closedUntil + 1000
  pending : p.holePending = dropPending l
  cells : ∀ before s after, l = before ++ .closed s :: after → p.held o s = true →
    p.readSecond o s = closeOf p.digits s before
  seen : ∀ before s after, l = before ++ .closed s :: after → ∃ t, newestUntil s before = some t
  later : ∀ (before : List PairEntry) (s : ℤ) (after : List PairEntry), l = before ++ .closed s :: after →
    ∀ t ∈ ticksOf after, (s : ℚ) < t.1.timestamp
  closed_le : ∀ s ∈ secondsOf l, s ≤ p.closedUntil
  increasing : (secondsOf l).Pairwise (· < ·)
  announced : ∀ s, p.held o s = true → s ∈ secondsOf l
  newest : ∀ before s after, l = before ++ .closed s :: after → .reset ∉ after → secondsOf after = [] →
    s = p.closedUntil
  contiguous : ∀ before s mid s' after, l = before ++ .closed s :: mid ++ .closed s' :: after →
    .reset ∉ mid → secondsOf mid = [] → s' = s + 1000

variable {l : List PairEntry} {p : SecondPair}

theorem held_iff {s : ℤ} : p.held o s = true ↔ (1000 : ℤ) ∣ s ∧ p.start ≤ s ∧
    p.closedUntil - (o.capacitySec - 1) * 1000 ≤ s ∧ s ≤ p.closedUntil := by
  unfold SecondPair.held SecondPair.floorOf
  rw [Bool.and_eq_true, Bool.and_eq_true, decide_eq_true_eq, decide_eq_true_eq, decide_eq_true_eq, max_le_iff,
    Int.dvd_iff_emod_eq_zero]
  tauto

/-- Every tick applied so far is at or before the end of the open second. -/
theorem PairInv.ticks_le (h : PairInv o l p) : ∀ t ∈ ticksOf l, t.1.timestamp ≤ p.closedUntil + 1000 := by
  intro t ht
  obtain ⟨best, hbest, hlast⟩ := h.last
  have hle := le_newestTick hbest t ht
  have hopen := h.last_le
  rw [hlast] at hopen
  exact hle.trans hopen

/-- **One second closes**: its value is the log's, and no other second of the window changes. -/
theorem PairInv.closeNext (h : PairInv o l p) :
    PairInv o (l ++ [.closed (p.closedUntil + 1000)]) (p.closeNext o) := by
  have hgrid := h.grid
  have hgrid' : (1000 : ℤ) ∣ p.closedUntil + 1000 := Dvd.dvd.add hgrid (dvd_refl _)
  have hheld : ∀ s, (p.closeNext o).held o s = true →
      s = p.closedUntil + 1000 ∨ (p.held o s = true ∧ p.closedUntil + 1000 < s + o.capacitySec * 1000) := by
    intro s hs
    obtain ⟨hdvd, hstart, hfloor, hle⟩ := held_iff.mp hs
    have hfloor' : p.closedUntil + 1000 - (o.capacitySec - 1) * 1000 ≤ s := hfloor
    have hle' : s ≤ p.closedUntil + 1000 := hle
    rcases eq_or_lt_of_le hle' with heq | hlt
    · exact .inl heq
    · refine .inr ⟨held_iff.mpr ⟨hdvd, hstart, ?_, ?_⟩, ?_⟩ <;> omega
  have hread : ∀ s, p.held o s = true → p.closedUntil + 1000 < s + o.capacitySec * 1000 →
      (p.closeNext o).readSecond o s = p.readSecond o s := by
    intro s hs hnear
    obtain ⟨hdvd, -, -, hle⟩ := held_iff.mp hs
    refine CellRing.read_write_near ?_ ?_ _ <;> omega
  have hself : (p.closeNext o).readSecond o (p.closedUntil + 1000) =
      if p.holePending then none else some p.last := CellRing.read_write_self _ _ _ _
  have hseconds : secondsOf (l ++ [.closed (p.closedUntil + 1000)]) = secondsOf l ++ [p.closedUntil + 1000] := by
    rw [secondsOf_snoc]
    rfl
  have hticks : ticksOf (l ++ [PairEntry.closed (p.closedUntil + 1000)]) = ticksOf l := by
    rw [ticksOf_snoc]
    exact List.append_nil _
  have hopen : newestUntil (p.closedUntil + 1000) l = newestTick (ticksOf l) := by
    refine newestUntil_eq (fun t ht => ?_)
    have hle := h.ticks_le t ht
    push_cast
    exact hle
  refine ⟨hgrid', ?_, ?_, ?_, ?_, ?_, ?_, ?_, ?_, ?_, ?_, ?_⟩
  · rw [hticks]
    exact h.last
  · have hle := h.last_le
    show p.last.timestamp ≤ ((p.closedUntil + 1000 : ℤ) : ℚ) + 1000
    push_cast
    linarith
  · rw [dropPending_snoc]
    exact h.pending
  · intro before s after hsplit hs
    rcases snoc_split hsplit with ⟨-, he, rfl⟩ | ⟨after', -, hold⟩
    · obtain rfl := PairEntry.closed.inj he
      rw [hself, closeOf, ← h.pending]
      obtain ⟨t, ht, hlast⟩ := h.last
      rw [hopen, ht, hlast]
      rfl
    · rcases hheld s hs with rfl | ⟨hs', hnear⟩
      · -- the second is new: no earlier entry closed it
        have hmem : p.closedUntil + 1000 ∈ secondsOf l := by
          rw [mem_secondsOf, hold]
          exact List.mem_append_right _ List.mem_cons_self
        have hle := h.closed_le _ hmem
        omega
      · rw [hread s hs' hnear]
        exact h.cells before s after' hold hs'
  · intro before s after hsplit
    rcases snoc_split hsplit with ⟨-, he, rfl⟩ | ⟨after', -, hold⟩
    · obtain rfl := PairEntry.closed.inj he
      obtain ⟨t, ht, -⟩ := h.last
      exact ⟨t, hopen.trans ht⟩
    · exact h.seen before s after' hold
  · intro before s after hsplit t ht
    rcases snoc_split hsplit with ⟨rfl, -, -⟩ | ⟨after', rfl, hold⟩
    · exact absurd ht (by simp [ticksOf])
    · have hnil : ticksOf (after' ++ [PairEntry.closed (p.closedUntil + 1000)]) = ticksOf after' := by
        rw [ticksOf_snoc]
        exact List.append_nil _
      rw [hnil] at ht
      exact h.later before s after' hold t ht
  · intro s hs
    rw [hseconds] at hs
    rcases List.mem_append.mp hs with hold | hnew
    · have hle := h.closed_le s hold
      show s ≤ p.closedUntil + 1000
      omega
    · rw [List.mem_singleton.mp hnew]
      exact le_refl _
  · rw [hseconds, List.pairwise_append]
    refine ⟨h.increasing, List.pairwise_singleton _ _, ?_⟩
    intro s hs s' hs'
    have hle := h.closed_le s hs
    rw [List.mem_singleton.mp hs']
    omega
  · intro s hs
    rw [hseconds, List.mem_append]
    rcases hheld s hs with rfl | ⟨hs', -⟩
    · exact .inr (List.mem_singleton.mpr rfl)
    · exact .inl (h.announced s hs')
  · intro before s after hsplit _ hnone
    rcases snoc_split hsplit with ⟨-, he, -⟩ | ⟨after', rfl, -⟩
    · exact (PairEntry.closed.inj he).symm
    · rw [secondsOf_snoc] at hnone
      exact absurd (List.append_eq_nil_iff.mp hnone).2 (by simp [PairEntry.second?])
  · intro before s mid s' after hsplit hreset hnone
    rcases snoc_split hsplit with ⟨-, he, hl⟩ | ⟨after', -, hold⟩
    · have hs := h.newest before s mid hl hreset hnone
      rw [← PairEntry.closed.inj he, hs]
    · exact h.contiguous before s mid s' after' hold hreset hnone

/-- The part of the invariant that an entry which closes nothing keeps. -/
theorem PairInv.snoc {e : PairEntry} {p' : SecondPair} (h : PairInv o l p) (hs : e.second? = none)
    (hdigits : p'.digits = p.digits) (hgrid : (1000 : ℤ) ∣ p'.closedUntil)
    (hlast : ∃ t, newestTick (ticksOf (l ++ [e])) = some t ∧ p'.last = rounded p'.digits t)
    (hlast_le : p'.last.timestamp ≤ p'.closedUntil + 1000)
    (hpending : p'.holePending = dropPending (l ++ [e]))
    (hheld : ∀ s, p'.held o s = true → p.held o s = true ∧ p'.readSecond o s = p.readSecond o s)
    (hticks : ∀ t ∈ (e.tick?).toList, (p.closedUntil : ℚ) < t.1.timestamp)
    (hle : p.closedUntil ≤ p'.closedUntil) (hclosed : e = .reset ∨ p'.closedUntil = p.closedUntil) :
    PairInv o (l ++ [e]) p' := by
  have hseconds : secondsOf (l ++ [e]) = secondsOf l := by
    rw [secondsOf_snoc, hs]
    exact List.append_nil _
  have hsplits : ∀ {before s after}, l ++ [e] = before ++ .closed s :: after →
      ∃ after', after = after' ++ [e] ∧ l = before ++ .closed s :: after' := by
    intro before s after hsplit
    rcases snoc_split hsplit with ⟨-, rfl, -⟩ | hold
    · exact nomatch hs
    · exact hold
  refine ⟨hgrid, hlast, hlast_le, hpending, ?_, ?_, ?_, ?_, ?_, ?_, ?_, ?_⟩
  · intro before s after hsplit hs'
    obtain ⟨after', -, hold⟩ := hsplits hsplit
    obtain ⟨hs'', hread⟩ := hheld s hs'
    rw [hread, hdigits]
    exact h.cells before s after' hold hs''
  · intro before s after hsplit
    obtain ⟨after', -, hold⟩ := hsplits hsplit
    exact h.seen before s after' hold
  · intro before s after hsplit t ht
    obtain ⟨after', rfl, hold⟩ := hsplits hsplit
    rw [ticksOf_snoc] at ht
    rcases List.mem_append.mp ht with hold' | hnew
    · exact h.later before s after' hold t hold'
    · have hmem : s ∈ secondsOf l := by
        rw [mem_secondsOf, hold]
        exact List.mem_append_right _ List.mem_cons_self
      have hsle : ((s : ℤ) : ℚ) ≤ p.closedUntil := by exact_mod_cast h.closed_le s hmem
      exact hsle.trans_lt (hticks t hnew)
  · intro s hmem
    rw [hseconds] at hmem
    exact (h.closed_le s hmem).trans hle
  · rw [hseconds]
    exact h.increasing
  · intro s hs'
    rw [hseconds]
    exact h.announced s (hheld s hs').1
  · intro before s after hsplit hreset hnone
    obtain ⟨after', rfl, hold⟩ := hsplits hsplit
    rcases hclosed with rfl | hclosed
    · exact absurd (List.mem_append_right _ (List.mem_singleton.mpr rfl)) hreset
    · rw [hclosed]
      refine h.newest before s after' hold (fun hmem => hreset (List.mem_append_left _ hmem)) ?_
      rw [secondsOf_snoc] at hnone
      exact (List.append_eq_nil_iff.mp hnone).1
  · intro before s mid s' after hsplit hreset hnone
    obtain ⟨after', -, hold⟩ := hsplits hsplit
    exact h.contiguous before s mid s' after' hold hreset hnone

/-- **A jump past the capacity** leaves no second of the pair. -/
theorem PairInv.reset (h : PairInv o l p) {target : ℤ} (hgrid : (1000 : ℤ) ∣ target)
    (hle : p.closedUntil ≤ target) :
    PairInv o (l ++ [.reset]) { p with closedUntil := target, start := target + 1000 } := by
  have hticks : ticksOf (l ++ [PairEntry.reset]) = ticksOf l := by
    rw [ticksOf_snoc]
    exact List.append_nil _
  refine h.snoc rfl rfl hgrid ?_ ?_ ?_ ?_ (by simp [PairEntry.tick?]) hle (.inl rfl)
  · rw [hticks]
    exact h.last
  · have hcast : (p.closedUntil : ℚ) ≤ target := by exact_mod_cast hle
    have hlast := h.last_le
    show p.last.timestamp ≤ (target : ℚ) + 1000
    linarith
  · rw [dropPending_snoc]
    exact h.pending
  · intro s hs
    obtain ⟨-, hstart, -, hs'⟩ := held_iff.mp hs
    have hstart' : target + 1000 ≤ s := hstart
    have hs'' : s ≤ target := hs'
    omega

/-- **A tick of the open second is applied.** -/
theorem PairInv.apply (h : PairInv o l p) {tick : Tick} {receivedAtMs : ℚ}
    (hlt : (p.closedUntil : ℚ) < tick.timestamp) (hle : tick.timestamp ≤ p.closedUntil + 1000) :
    PairInv o (l ++ [.applied tick receivedAtMs]) (p.apply tick receivedAtMs) := by
  obtain ⟨t, ht, hlast⟩ := h.last
  have htime : p.last.timestamp = t.1.timestamp := by rw [hlast]; rfl
  refine h.snoc rfl rfl h.grid ?_ ?_ ?_ (fun s hs => ⟨hs, rfl⟩) ?_ (le_refl _) (.inr rfl)
  · rw [ticksOf_snoc]
    show ∃ t', newestTick (ticksOf l ++ [(tick, receivedAtMs)]) = some t' ∧ _
    rw [newestTick_snoc, ht, newer]
    show ∃ t', _ ∧ (if p.last.timestamp ≤ tick.timestamp then _ else p.last) = rounded p.digits t'
    rw [htime]
    split_ifs
    · exact ⟨_, rfl, rfl⟩
    · exact ⟨_, rfl, hlast⟩
  · show (if p.last.timestamp ≤ tick.timestamp then _ else p.last : LastTick).timestamp ≤
      (p.closedUntil : ℚ) + 1000
    split_ifs
    · exact hle
    · exact h.last_le
  · rw [dropPending_snoc]
    rfl
  · intro t' ht'
    have heq : t' = (tick, receivedAtMs) := by simpa [PairEntry.tick?] using ht'
    rw [heq]
    exact hlt

/-- A drop. -/
theorem PairInv.dropped (h : PairInv o l p) :
    PairInv o (l ++ [.dropped]) { p with holePending := true } := by
  have hticks : ticksOf (l ++ [PairEntry.dropped]) = ticksOf l := by
    rw [ticksOf_snoc]
    exact List.append_nil _
  refine h.snoc rfl rfl h.grid ?_ h.last_le ?_ (fun s hs => ⟨hs, rfl⟩) (by simp [PairEntry.tick?])
    (le_refl _) (.inr rfl)
  · rw [hticks]
    exact h.last
  · rw [dropPending_snoc]

/-- How a pair's newest second closed is no part of the invariant. -/
theorem PairInv.announcedBy (h : PairInv o l p) (closed : List ℤ) (closedBy : H1SecondClosedBy)
    (closedAtMs : ℚ) : PairInv o l (p.announced closed closedBy closedAtMs) := by
  unfold SecondPair.announced
  split_ifs
  · exact h
  · exact ⟨h.grid, h.last, h.last_le, h.pending, h.cells, h.seen, h.later, h.closed_le, h.increasing, h.announced,
      h.newest, h.contiguous⟩

theorem secondOf_dvd (timestamp : ℚ) : (1000 : ℤ) ∣ secondOf timestamp := Int.dvd_mul_left _ _

theorem le_secondOf (timestamp : ℚ) : timestamp ≤ secondOf timestamp := by
  have h := Int.le_ceil (timestamp / 1000)
  unfold secondOf
  push_cast
  linarith

/-- **The first tick opens the series** of a pair that has only seen drops. -/
theorem PairInv.opened (hl : ∀ e ∈ l, e = .dropped) (digits : ℕ) (tick : Tick) (receivedAtMs : ℚ) :
    PairInv o (l ++ [.applied tick receivedAtMs]) (SecondPair.opened digits tick receivedAtMs) := by
  have hticks : ticksOf l = [] := by
    unfold ticksOf
    rw [List.filterMap_eq_nil_iff]
    intro e he
    rw [hl e he]
    rfl
  have hseconds : secondsOf (l ++ [.applied tick receivedAtMs]) = [] := by
    rw [secondsOf_snoc]
    have hnone : secondsOf l = [] := by
      unfold secondsOf
      rw [List.filterMap_eq_nil_iff]
      intro e he
      rw [hl e he]
      rfl
    rw [hnone]
    rfl
  have hnone : ∀ {before s after}, l ++ [.applied tick receivedAtMs] ≠ before ++ .closed s :: after := by
    intro before s after hsplit
    have hmem : s ∈ secondsOf (l ++ [.applied tick receivedAtMs]) := by
      rw [mem_secondsOf, hsplit]
      exact List.mem_append_right _ List.mem_cons_self
    rw [hseconds] at hmem
    exact nomatch hmem
  have hempty : ∀ s, (SecondPair.opened digits tick receivedAtMs).held o s = true → False := by
    intro s hs
    obtain ⟨-, hstart, -, hle⟩ := held_iff.mp hs
    have hstart' : secondOf tick.timestamp ≤ s := hstart
    have hle' : s ≤ secondOf tick.timestamp - 1000 := hle
    omega
  refine ⟨?_, ?_, ?_, ?_, fun _ _ _ hsplit _ => absurd hsplit hnone, fun _ _ _ hsplit => absurd hsplit hnone,
    fun _ _ _ hsplit => absurd hsplit hnone, ?_, ?_, fun s hs => absurd hs (hempty s), fun _ _ _ hsplit _ _ => absurd hsplit hnone, ?_⟩
  · exact Dvd.dvd.sub (secondOf_dvd _) (dvd_refl _)
  · refine ⟨(tick, receivedAtMs), ?_, rfl⟩
    rw [ticksOf_snoc, hticks]
    rfl
  · have hle := le_secondOf tick.timestamp
    show tick.timestamp ≤ ((secondOf tick.timestamp - 1000 : ℤ) : ℚ) + 1000
    push_cast
    linarith
  · rw [dropPending_snoc]
    rfl
  · intro s hs
    rw [hseconds] at hs
    exact nomatch hs
  · rw [hseconds]
    exact List.Pairwise.nil
  · intro before s mid s' after hsplit
    rw [List.append_assoc] at hsplit
    exact absurd hsplit hnone

/-! ### A closing as a whole -/

/-- What the closing loop and a jump add to the pair's log. -/
def SecondPair.Closing.entries (closing : SecondPair.Closing) : List PairEntry :=
  (if closing.wasReset then [.reset] else []) ++ closing.closed.map PairEntry.closed

theorem PairInv.closeLoop (n : ℕ) : ∀ {l : List PairEntry} {p : SecondPair}, PairInv o l p →
    PairInv o (l ++ (SecondPair.closeLoop o n p).2.map PairEntry.closed) (SecondPair.closeLoop o n p).1 ∧
      (SecondPair.closeLoop o n p).1.closedUntil = p.closedUntil + n * 1000 ∧
      (SecondPair.closeLoop o n p).1.digits = p.digits := by
  induction n with
  | zero =>
    intro l p h
    refine ⟨?_, by simp [SecondPair.closeLoop], rfl⟩
    rw [SecondPair.closeLoop, List.map_nil, List.append_nil]
    exact h
  | succ n ih =>
    intro l p h
    obtain ⟨hinv, huntil, hdigits⟩ := ih h.closeNext
    refine ⟨?_, ?_, hdigits⟩
    · rw [List.append_assoc] at hinv
      exact hinv
    · show (SecondPair.closeLoop o n (p.closeNext o)).1.closedUntil = _
      rw [huntil]
      show p.closedUntil + 1000 + n * 1000 = _
      push_cast
      ring

/-- **Everything up to a target closes**, or the pair is emptied. -/
theorem PairInv.closeThrough (h : PairInv o l p) {target : ℤ} (hgrid : (1000 : ℤ) ∣ target)
    (hle : p.closedUntil ≤ target) :
    PairInv o (l ++ (p.closeThrough o target).entries) (p.closeThrough o target).pair ∧
      (p.closeThrough o target).pair.closedUntil = target ∧
      (p.closeThrough o target).pair.digits = p.digits := by
  obtain ⟨k, hk⟩ := h.grid
  obtain ⟨m, rfl⟩ := hgrid
  unfold SecondPair.closeThrough
  simp only
  split_ifs with hjump
  · exact ⟨h.reset (Int.dvd_mul_right _ _) hle, rfl, rfl⟩
  · obtain ⟨hinv, huntil, hdigits⟩ := PairInv.closeLoop ((1000 * m - p.closedUntil) / 1000).toNat h
    refine ⟨hinv, ?_, hdigits⟩
    show (SecondPair.closeLoop o _ p).1.closedUntil = 1000 * m
    rw [huntil]
    omega

/-- Nothing to close. -/
theorem PairInv.nothing (h : PairInv o l p) :
    PairInv o (l ++ (SecondPair.Closing.mk p [] false).entries) p := by
  rw [show (SecondPair.Closing.mk p [] false).entries = [] from rfl, List.append_nil]
  exact h

/-- **A tick past the last closed second**: its closing, then the tick. -/
theorem PairInv.applyTick (h : PairInv o l p) {tick : Tick} (receivedAtMs : ℚ)
    (hlt : (p.closedUntil : ℚ) < tick.timestamp) :
    PairInv o (l ++ (SecondSeries.tickClosing o p tick).entries ++ [.applied tick receivedAtMs])
        ((SecondSeries.tickClosing o p tick).pair.apply tick receivedAtMs) ∧
      (SecondSeries.tickClosing o p tick).pair.digits = p.digits := by
  have hsecond := le_secondOf tick.timestamp
  have hdvd := secondOf_dvd tick.timestamp
  have hpast : p.closedUntil < secondOf tick.timestamp := by
    have hcast : (p.closedUntil : ℚ) < secondOf tick.timestamp := hlt.trans_le hsecond
    exact_mod_cast hcast
  have hceil : (secondOf tick.timestamp : ℚ) - 1000 < tick.timestamp := by
    have hc := Int.ceil_lt_add_one (tick.timestamp / 1000)
    unfold secondOf
    push_cast
    linarith
  unfold SecondSeries.tickClosing
  simp only
  split_ifs with hbehind
  · obtain ⟨hinv, huntil, hdigits⟩ := h.closeThrough (hdvd.sub (dvd_refl _)) hbehind.le
    refine ⟨hinv.apply ?_ ?_, hdigits⟩
    · rw [huntil]
      push_cast
      exact hceil
    · rw [huntil]
      push_cast
      linarith
  · refine ⟨h.nothing.apply hlt ?_, rfl⟩
    have hle : tick.timestamp ≤ (p.closedUntil + 1000 : ℤ) := by
      refine hsecond.trans ?_
      have hint : secondOf tick.timestamp ≤ p.closedUntil + 1000 := by omega
      exact_mod_cast hint
    push_cast at hle
    exact hle

/-- **The clock's closing of a pair.** -/
theorem PairInv.clockClosing (h : PairInv o l p) (nowMs : ℚ) :
    PairInv o (l ++ (SecondSeries.clockClosing o p nowMs).entries) (SecondSeries.clockClosing o p nowMs).pair ∧
      (SecondSeries.clockClosing o p nowMs).pair.digits = p.digits := by
  unfold SecondSeries.clockClosing SecondPair.clockTarget
  simp only
  split_ifs with hdue
  · exact ⟨h.nothing, rfl⟩
  · have hfloor : 0 ≤ ⌊(nowMs - o.closeMarginMs - ((p.closedUntil + 1000 : ℤ) : ℚ)) / 1000⌋ := by
      rw [Int.floor_nonneg]
      have hle : ((p.closedUntil + 1000 : ℤ) : ℚ) + o.closeMarginMs ≤ nowMs := not_lt.mp hdue
      refine div_nonneg ?_ (by norm_num)
      linarith
    have hdvd : (1000 : ℤ) ∣ p.closedUntil + 1000 +
        ⌊(nowMs - o.closeMarginMs - ((p.closedUntil + 1000 : ℤ) : ℚ)) / 1000⌋ * 1000 :=
      (h.grid.add (dvd_refl _)).add (Int.dvd_mul_left _ _)
    obtain ⟨hinv, -, hdigits⟩ := h.closeThrough hdvd (by omega)
    exact ⟨hinv, hdigits⟩

end PairInv

/-! ## Runs of the series -/

inductive SeriesAct
  | push (assetId : ℕ) (digits : ℤ) (tick : Tick) (receivedAtMs : ℚ)
  | advance (nowMs : ℚ)
  | drop

/-- What a run of the series shows, in order. -/
inductive SeriesEntry
  | event (event : SeriesEvent)
  | applied (assetId : ℕ) (tick : Tick) (receivedAtMs : ℚ)
  | dropped

/-- The part of an entry that is about one pair. -/
def SeriesEntry.ofPair (a : ℕ) : SeriesEntry → Option PairEntry
  | event (.closed closed) => if closed.assetId = a then some (.closed closed.second) else none
  | event (.reset assetId) => if assetId = a then some .reset else none
  | applied assetId tick receivedAtMs => if assetId = a then some (.applied tick receivedAtMs) else none
  | dropped => some .dropped

def pairLog (a : ℕ) (log : List SeriesEntry) : List PairEntry := log.filterMap (SeriesEntry.ofPair a)

/-- The series and its log. -/
structure WatchedSeries where
  series : SecondSeries := {}
  log : List SeriesEntry := []

namespace WatchedSeries

variable (o : SecondSeriesOptions)

/-- A tick that no check of `push` refuses. -/
def applies (s : SecondSeries) (assetId : ℕ) (digits : ℤ) (tick : Tick) (receivedAtMs : ℚ) : Bool :=
  decide (tickProblem tick receivedAtMs = none) &&
    decide (tick.timestamp ≤ receivedAtMs + o.closeMarginMs) &&
    match s.pairs.get? assetId with
    | none => (assertDigits digits).isSome
    | some pair => decide ((pair.closedUntil : ℚ) < tick.timestamp)

/-- One call of a writer: what it tells, and the tick if it is applied. -/
def act (w : WatchedSeries) : SeriesAct → WatchedSeries
  | .push assetId digits tick receivedAtMs => {
      series := (w.series.push o assetId digits tick receivedAtMs).1
      log := w.log ++ (w.series.push o assetId digits tick receivedAtMs).2.map .event ++
        if applies o w.series assetId digits tick receivedAtMs then [.applied assetId tick receivedAtMs]
        else [] }
  | .advance nowMs => {
      series := (w.series.advance o nowMs).1
      log := w.log ++ (w.series.advance o nowMs).2.map .event }
  | .drop => { series := w.series.onDrop, log := w.log ++ [.dropped] }

/-- **What every run keeps** of every pair. -/
def Inv (w : WatchedSeries) : Prop :=
  ∀ a, match w.series.pairs.get? a with
    | none => ∀ e ∈ pairLog a w.log, e = .dropped
    | some pair => PairInv o (pairLog a w.log) pair

section Act

variable {o : SecondSeriesOptions} {w : WatchedSeries}

@[simp] theorem pairLog_append (a : ℕ) (log log' : List SeriesEntry) :
    pairLog a (log ++ log') = pairLog a log ++ pairLog a log' := List.filterMap_append

/-- The events of a closing, read at a pair. -/
theorem pairLog_events (closing : SecondPair.Closing) (a assetId : ℕ) (closedBy : H1SecondClosedBy)
    (closedAtMs : ℚ) :
    pairLog a ((closing.events assetId closedBy closedAtMs).map .event) =
      if assetId = a then closing.entries else [] := by
  unfold SecondPair.Closing.events SecondPair.Closing.entries
  rw [List.map_append, pairLog_append, List.map_map]
  have hclosed : pairLog a (closing.closed.map (SeriesEntry.event ∘ fun second =>
      SeriesEvent.closed { assetId, second, closedBy, closedAtMs })) =
      if assetId = a then closing.closed.map PairEntry.closed else [] := by
    induction closing.closed with
    | nil => simp [pairLog]
    | cons second rest ih =>
      unfold pairLog at ih ⊢
      rw [List.map_cons, List.filterMap_cons]
      by_cases ha : assetId = a
      · rw [if_pos ha] at ih ⊢
        simp only [Function.comp_apply, SeriesEntry.ofPair, if_pos ha, ih, List.map_cons]
      · rw [if_neg ha] at ih ⊢
        simp only [Function.comp_apply, SeriesEntry.ofPair, if_neg ha, ih]
  rw [hclosed]
  cases hreset : closing.wasReset <;> by_cases ha : assetId = a <;>
    simp [pairLog, SeriesEntry.ofPair, ha]

/-- A tick that no check refuses is applied to its pair. -/
theorem push_of_applies {assetId : ℕ} {digits : ℤ} {tick : Tick} {receivedAtMs : ℚ}
    (h : applies o w.series assetId digits tick receivedAtMs = true) :
    (∃ pair, w.series.pairs.get? assetId = some pair ∧ (pair.closedUntil : ℚ) < tick.timestamp ∧
      w.series.push o assetId digits tick receivedAtMs =
        w.series.applyTick o assetId pair tick receivedAtMs) ∨
    (w.series.pairs.get? assetId = none ∧ ∃ digits', assertDigits digits = some digits' ∧
      w.series.push o assetId digits tick receivedAtMs =
        ({ w.series with pairs := w.series.pairs.set assetId (SecondPair.opened digits' tick receivedAtMs) },
          [])) := by
  unfold applies at h
  rw [Bool.and_eq_true, Bool.and_eq_true, decide_eq_true_eq, decide_eq_true_eq] at h
  obtain ⟨⟨hproblem, hahead⟩, hpair⟩ := h
  unfold SecondSeries.push
  rw [if_neg (by rw [hproblem]; simp), if_neg (not_lt.mpr hahead)]
  cases hget : w.series.pairs.get? assetId with
  | none =>
    rw [hget] at hpair
    obtain ⟨digits', hdigits⟩ := Option.isSome_iff_exists.mp hpair
    refine .inr ⟨rfl, digits', hdigits, ?_⟩
    simp only [hdigits]
  | some pair =>
    rw [hget] at hpair
    have hlt : (pair.closedUntil : ℚ) < tick.timestamp := by simpa using hpair
    refine .inl ⟨pair, rfl, hlt, ?_⟩
    simp only
    rw [if_neg (not_le.mpr hlt)]

/-- A tick that a check refuses changes no pair and tells nothing. -/
theorem push_of_not_applies {assetId : ℕ} {digits : ℤ} {tick : Tick} {receivedAtMs : ℚ}
    (h : applies o w.series assetId digits tick receivedAtMs = false) :
    (w.series.push o assetId digits tick receivedAtMs).1.pairs = w.series.pairs ∧
      (w.series.push o assetId digits tick receivedAtMs).2 = [] := by
  unfold SecondSeries.push
  split_ifs with hproblem hahead
  · exact ⟨rfl, rfl⟩
  · exact ⟨rfl, rfl⟩
  · have hproblem' : tickProblem tick receivedAtMs = none := by simpa using hproblem
    have hrest := h
    unfold applies at hrest
    rw [decide_eq_true hproblem', decide_eq_true (not_lt.mp hahead), Bool.true_and, Bool.true_and] at hrest
    cases hget : w.series.pairs.get? assetId with
    | none =>
      rw [hget] at hrest
      have hnone : assertDigits digits = none := by simpa using hrest
      simp [hnone]
    | some pair =>
      rw [hget] at hrest
      have hlate : tick.timestamp ≤ pair.closedUntil := by simpa using hrest
      simp [hlate]

/-- A write of one pair, with entries about that pair only. -/
theorem Inv.setPair (h : w.Inv o) {assetId : ℕ} {pair : SecondPair} {series : SecondSeries}
    {entries : List SeriesEntry} (hpairs : series.pairs = w.series.pairs.set assetId pair)
    (hother : ∀ a, a ≠ assetId → pairLog a entries = [])
    (hpair : PairInv o (pairLog assetId (w.log ++ entries)) pair) :
    Inv o { series, log := w.log ++ entries } := by
  intro a
  show match series.pairs.get? a with | none => _ | some pair => _
  rw [hpairs, OrderedMap.get?_set]
  by_cases ha : assetId = a
  · subst ha
    rw [if_pos rfl]
    exact hpair
  · have hold := h a
    rw [if_neg ha, pairLog_append, hother a (fun heq => ha heq.symm), List.append_nil]
    exact hold

/-- **Every writer keeps the invariant.** -/
theorem Inv.act (h : w.Inv o) (x : SeriesAct) : (w.act o x).Inv o := by
  cases x with
  | push assetId digits tick receivedAtMs =>
    unfold WatchedSeries.act
    simp only
    cases happlies : applies o w.series assetId digits tick receivedAtMs with
    | false =>
      obtain ⟨hpairs, hnil⟩ := push_of_not_applies happlies
      intro a
      have hold := h a
      simp only [hpairs, hnil, Bool.false_eq_true, if_false, List.map_nil, List.append_nil]
      exact hold
    | true =>
      rcases push_of_applies happlies with ⟨pair, hget, hlt, hpush⟩ | ⟨hget, digits', -, hpush⟩
      · rw [hpush, if_pos rfl, List.append_assoc]
        have hold := h assetId
        rw [hget] at hold
        obtain ⟨hinv, -⟩ := hold.applyTick receivedAtMs hlt
        refine h.setPair rfl (fun a ha => ?_) ?_
        · show pairLog a (((SecondSeries.tickClosing o pair tick).events _ _ _).map .event ++ _) = []
          rw [pairLog_append, pairLog_events, if_neg (fun heq => ha heq.symm)]
          simp [pairLog, SeriesEntry.ofPair, show ¬ assetId = a from fun heq => ha heq.symm]
        · refine PairInv.announcedBy ?_ _ _ _
          show PairInv o (pairLog assetId (w.log ++
            (((SecondSeries.tickClosing o pair tick).events _ _ _).map .event ++ _))) _
          rw [pairLog_append, pairLog_append, pairLog_events, if_pos rfl, ← List.append_assoc]
          have happlied : pairLog assetId [.applied assetId tick receivedAtMs] =
              [.applied tick receivedAtMs] := by simp [pairLog, SeriesEntry.ofPair]
          rw [happlied]
          exact hinv
      · rw [hpush, if_pos rfl, List.map_nil, List.append_nil]
        have hold := h assetId
        rw [hget] at hold
        refine h.setPair rfl (fun a ha => ?_) ?_
        · simp [pairLog, SeriesEntry.ofPair, show ¬ assetId = a from fun heq => ha heq.symm]
        · have happlied : pairLog assetId [.applied assetId tick receivedAtMs] =
              [.applied tick receivedAtMs] := by simp [pairLog, SeriesEntry.ofPair]
          rw [pairLog_append, happlied]
          exact PairInv.opened hold digits' tick receivedAtMs
  | advance nowMs =>
    intro a
    have hold := h a
    have hlog : pairLog a ((w.series.advance o nowMs).2.map .event) =
        (w.series.pairs.get? a).elim [] (fun pair => (SecondSeries.clockClosing o pair nowMs).entries) := by
      show pairLog a ((w.series.pairs.entries.flatMap (fun e =>
        (SecondSeries.clockClosing o e.2 nowMs).events e.1 .clock nowMs)).map .event) = _
      rw [List.map_flatMap]
      unfold pairLog
      rw [OrderedMap.filterMap_flatMap_of_key w.series.pairs (k := a)
        (g := fun k pair =>
          ((SecondSeries.clockClosing o pair nowMs).events k .clock nowMs).map SeriesEntry.event)]
      · cases w.series.pairs.get? a with
        | none => rfl
        | some pair =>
          have hev := pairLog_events (SecondSeries.clockClosing o pair nowMs) a a .clock nowMs
          rw [if_pos rfl] at hev
          exact hev
      · intro k pair hk
        have hev := pairLog_events (SecondSeries.clockClosing o pair nowMs) a k .clock nowMs
        rw [if_neg hk] at hev
        exact hev
    show match (w.series.advance o nowMs).1.pairs.get? a with
      | none => ∀ e ∈ pairLog a (w.log ++ (w.series.advance o nowMs).2.map .event), e = .dropped
      | some pair => PairInv o (pairLog a (w.log ++ (w.series.advance o nowMs).2.map .event)) pair
    rw [pairLog_append, hlog]
    unfold SecondSeries.advance
    simp only
    rw [OrderedMap.get?_mapVal]
    cases hget : w.series.pairs.get? a with
    | none =>
      rw [hget] at hold
      simpa using hold
    | some pair =>
      rw [hget] at hold
      exact (hold.clockClosing nowMs).1.announcedBy _ _ _
  | drop =>
    intro a
    have hold := h a
    have hlog : pairLog a (w.log ++ [.dropped]) = pairLog a w.log ++ [.dropped] := by
      rw [pairLog_append]
      rfl
    show match w.series.onDrop.pairs.get? a with
      | none => ∀ e ∈ pairLog a (w.log ++ [.dropped]), e = .dropped
      | some pair => PairInv o (pairLog a (w.log ++ [.dropped])) pair
    unfold SecondSeries.onDrop
    simp only
    rw [hlog, OrderedMap.get?_mapVal]
    cases hget : w.series.pairs.get? a with
    | none =>
      rw [hget] at hold
      intro e he
      rcases List.mem_append.mp he with hmem | hmem
      · exact hold e hmem
      · exact List.mem_singleton.mp hmem
    | some pair =>
      rw [hget] at hold
      exact hold.dropped

theorem Inv.start : Inv o {} := by
  intro a e he
  exact nomatch he

theorem Inv.run (acts : List SeriesAct) : (Lib.run (WatchedSeries.act o) {} acts).Inv o :=
  run_induction Inv.start (fun _ x hw => hw.act x) acts

/-- A pair keeps the digits of its first tick. -/
theorem digitsOf_act (h : w.Inv o) (x : SeriesAct) {a digits : ℕ} (hd : w.series.digitsOf a = some digits) :
    (w.act o x).series.digitsOf a = some digits := by
  unfold SecondSeries.digitsOf at hd ⊢
  obtain ⟨pair, hget, rfl⟩ := Option.map_eq_some_iff.mp hd
  have hold := h a
  rw [hget] at hold
  cases x with
  | push assetId newDigits tick receivedAtMs =>
    show ((w.series.push o assetId newDigits tick receivedAtMs).1.pairs.get? a).map _ = _
    cases happlies : applies o w.series assetId newDigits tick receivedAtMs with
    | false => rw [(push_of_not_applies happlies).1, hget, Option.map_some]
    | true =>
      rcases push_of_applies happlies with ⟨pair', hget', hlt, hpush⟩ | ⟨hget', digits', -, hpush⟩
      · rw [hpush]
        show ((w.series.pairs.set assetId _).get? a).map _ = _
        rw [OrderedMap.get?_set]
        by_cases ha : assetId = a
        · subst ha
          obtain rfl := Option.some.inj (hget.symm.trans hget')
          rw [if_pos rfl, Option.map_some]
          show some (SecondPair.announced _ _ _ _).digits = _
          unfold SecondPair.announced
          rw [apply_ite SecondPair.digits]
          exact congrArg some ((ite_self _).trans (hold.applyTick receivedAtMs hlt).2)
        · rw [if_neg ha, hget, Option.map_some]
      · have hne : assetId ≠ a := by
          rintro rfl
          exact nomatch hget.symm.trans hget'
        rw [hpush]
        show ((w.series.pairs.set assetId _).get? a).map _ = _
        rw [OrderedMap.get?_set, if_neg hne, hget, Option.map_some]
  | advance nowMs =>
    show ((w.series.pairs.mapVal _).get? a).map _ = _
    rw [OrderedMap.get?_mapVal, hget]
    show some (SecondPair.announced _ _ _ _).digits = _
    unfold SecondPair.announced
    rw [apply_ite SecondPair.digits]
    exact congrArg some ((ite_self _).trans (hold.clockClosing nowMs).2)
  | drop =>
    show ((w.series.pairs.mapVal _).get? a).map _ = _
    rw [OrderedMap.get?_mapVal, hget]
    rfl

/-- The log only grows. -/
theorem log_act (w : WatchedSeries) (x : SeriesAct) : w.log <+: (w.act o x).log := by
  cases x with
  | push assetId digits tick receivedAtMs => exact ⟨_, (List.append_assoc _ _ _).symm⟩
  | advance nowMs => exact ⟨_, rfl⟩
  | drop => exact ⟨_, rfl⟩

/-- A run from a state that keeps the invariant: the digits stay, the log only grows. -/
theorem Inv.grows (h : w.Inv o) (acts : List SeriesAct) :
    (Lib.run (WatchedSeries.act o) w acts).Inv o ∧ w.log <+: (Lib.run (WatchedSeries.act o) w acts).log ∧
      ∀ a digits, w.series.digitsOf a = some digits →
        (Lib.run (WatchedSeries.act o) w acts).series.digitsOf a = some digits := by
  induction acts generalizing w with
  | nil => exact ⟨h, List.prefix_refl _, fun _ _ hd => hd⟩
  | cons x acts ih =>
    obtain ⟨hinv, hlog, hdigits⟩ := ih (h.act x)
    exact ⟨hinv, (log_act w x).trans hlog, fun a digits hd => hdigits a digits (digitsOf_act h x hd)⟩

end Act

/-- The series holds the second as a closed one. -/
def holds (o : SecondSeriesOptions) (w : WatchedSeries) (a : ℕ) (s : ℤ) : Bool :=
  (w.series.pairs.get? a).any (fun pair => pair.held o s)

theorem holds_iff {o : SecondSeriesOptions} {w : WatchedSeries} {a : ℕ} {s : ℤ} :
    w.holds o a s = true ↔ ∃ pair, w.series.pairs.get? a = some pair ∧ pair.held o s = true := by
  unfold holds
  cases w.series.pairs.get? a <;> simp

/-- The close the log gives a second. -/
theorem Inv.close_eq {o : SecondSeriesOptions} {w : WatchedSeries} (h : w.Inv o) {a : ℕ} {s : ℤ}
    (hs : w.holds o a s = true) : ∃ digits before after t,
      w.series.digitsOf a = some digits ∧ pairLog a w.log = before ++ .closed s :: after ∧
      newestUntil s before = some t ∧ newestUntil s (pairLog a w.log) = some t ∧
      w.series.lastTickOf o a s = (if dropPending before then none else some (rounded digits t)) ∧
      w.series.close o a s = if dropPending before then none else some (toFixed digits t.1.price) := by
  obtain ⟨pair, hget, hheld⟩ := holds_iff.mp hs
  have hpair := h a
  rw [hget] at hpair
  obtain ⟨before, after, hsplit⟩ := List.append_of_mem (mem_secondsOf.mp (hpair.announced s hheld))
  obtain ⟨t, ht⟩ := hpair.seen before s after hsplit
  have hcell := hpair.cells before s after hsplit hheld
  rw [closeOf, ht] at hcell
  have hlater : ∀ t' ∈ ticksOf (.closed s :: after), (s : ℚ) < t'.1.timestamp :=
    hpair.later before s after hsplit
  refine ⟨pair.digits, before, after, t, by rw [SecondSeries.digitsOf, hget]; rfl, hsplit, ht, ?_, ?_, ?_⟩
  · rw [hsplit, newestUntil_append hlater]
    exact ht
  · unfold SecondSeries.lastTickOf
    rw [hget]
    simp only
    rw [if_pos hheld, hcell]
    rfl
  · unfold SecondSeries.close
    rw [hget]
    simp only
    rw [if_pos hheld, hcell]
    split_ifs <;> rfl

end WatchedSeries

/-! ## The series over every run -/

section Values

variable (o : SecondSeriesOptions)

/-- **The second series over every run** of ticks, clock readings and drops.  A held second is the
rounded price of the pair's newest applied tick at or before its end, or NaN exactly when it closed
after a drop that no applied tick of the pair had followed; it never changes.  The listeners hear each
held second once, in increasing order, and without a gap except over a reset.  The readers return those
values, and nothing for a second the series does not hold. -/
theorem second_values (acts : List SeriesAct) (a : ℕ) :
    let w := run (WatchedSeries.act o) {} acts
    let l := pairLog a w.log
    (∀ s, w.holds o a s = true → ∃ digits before after t,
      w.series.digitsOf a = some digits ∧ l = before ++ .closed s :: after ∧ newestUntil s l = some t ∧
      w.series.lastTickOf o a s = (if dropPending before then none else some (rounded digits t)) ∧
      w.series.close o a s = if dropPending before then none else some (toFixed digits t.1.price)) ∧
    (∀ more s, w.holds o a s = true → (run (WatchedSeries.act o) w more).holds o a s = true →
      (run (WatchedSeries.act o) w more).series.close o a s = w.series.close o a s) ∧
    ((∀ s, w.holds o a s = true → s ∈ secondsOf l) ∧ (secondsOf l).Pairwise (· < ·) ∧
      ∀ before s mid s' after, l = before ++ .closed s :: mid ++ .closed s' :: after →
        .reset ∉ mid → secondsOf mid = [] → s' = s + 1000) ∧
    (∀ s, w.holds o a s = false → w.series.close o a s = none ∧ w.series.lastTickOf o a s = none) ∧
    ∀ f n, w.series.window o a f n =
      { closes := (List.range n).map (fun i => w.series.close o a (SecondSeries.windowSecond f n i))
        complete := (w.series.pairs.get? a).isSome &&
          (List.range n).all (fun i => w.holds o a (SecondSeries.windowSecond f n i)) } := by
  intro w l
  have hw : w.Inv o := WatchedSeries.Inv.run acts
  have ha := hw a
  refine ⟨?_, ?_, ?_, ?_, ?_⟩
  · intro s hs
    obtain ⟨digits, before, after, t, hdigits, hsplit, -, hnewest, hlast, hclose⟩ := hw.close_eq hs
    exact ⟨digits, before, after, t, hdigits, hsplit, hnewest, hlast, hclose⟩
  · intro more s hs hs'
    obtain ⟨hw', ⟨extra, hlog⟩, hkeep⟩ := hw.grows more
    obtain ⟨digits, before, after, t, hdigits, hsplit, hbefore, -, -, hclose⟩ := hw.close_eq hs
    obtain ⟨digits', before', after', t', hdigits', hsplit', hbefore', -, -, hclose'⟩ := hw'.close_eq hs'
    obtain rfl := Option.some.inj ((hkeep a digits hdigits).symm.trans hdigits')
    -- one second closes once: both decompositions of the longer log are the same
    have hsame : before' = before := by
      have hfull : pairLog a (run (WatchedSeries.act o) w more).log =
          before ++ .closed s :: (after ++ pairLog a extra) := by
        rw [← hlog, WatchedSeries.pairLog_append, hsplit]
        simp
      have hpair := hw' a
      have hnodup : (secondsOf (pairLog a (run (WatchedSeries.act o) w more).log)).Nodup := by
        obtain ⟨pair, hget, -⟩ := WatchedSeries.holds_iff.mp hs'
        rw [hget] at hpair
        exact hpair.increasing.imp (fun hlt => hlt.ne)
      exact split_unique hnodup hsplit' hfull
    rw [hsame] at hclose' hbefore'
    obtain rfl := Option.some.inj (hbefore.symm.trans hbefore')
    rw [hclose, hclose']
  · cases hget : w.series.pairs.get? a with
    | none =>
      rw [hget] at ha
      have hnone : secondsOf l = [] := by
        unfold secondsOf
        rw [List.filterMap_eq_nil_iff]
        intro e he
        rw [ha e he]
        rfl
      refine ⟨?_, by rw [hnone]; exact List.Pairwise.nil, ?_⟩
      · intro s hs
        unfold WatchedSeries.holds at hs
        rw [hget] at hs
        exact nomatch hs
      · intro before s mid s' after hsplit
        have hmem : s ∈ secondsOf l := by
          rw [mem_secondsOf, hsplit]
          simp
        rw [hnone] at hmem
        exact nomatch hmem
    | some pair =>
      rw [hget] at ha
      refine ⟨?_, ha.increasing, ha.contiguous⟩
      intro s hs
      unfold WatchedSeries.holds at hs
      rw [hget] at hs
      exact ha.announced s hs
  · intro s hs
    unfold WatchedSeries.holds at hs
    unfold SecondSeries.close SecondSeries.lastTickOf
    cases hget : w.series.pairs.get? a with
    | none => exact ⟨rfl, rfl⟩
    | some pair =>
      rw [hget] at hs
      have hnot : pair.held o s = false := hs
      simp [hnot]
  · intro f n
    unfold SecondSeries.window SecondSeries.close WatchedSeries.holds
    cases hget : w.series.pairs.get? a with
    | none => simp
    | some pair => simp

/-- The last drop is not yet followed by a tick newer than every tick before it. -/
def newerPending (l : List PairEntry) : Bool :=
  (l.foldl (fun (seen : Option ℚ × Option (Option ℚ)) entry => match entry with
    | .dropped => (seen.1, some seen.1)
    | .applied tick _ =>
      (some (seen.1.elim tick.timestamp (max tick.timestamp)),
        seen.2.filter (fun mark => mark.any (fun newest => tick.timestamp ≤ newest)))
    | _ => seen) (none, none)).2.isSome

/-- A pair drops after its tick at 600; an older tick of the same second comes, then the next second's:
the second closes with the price of the tick at 600. -/
def olderTickAfterDrop : List SeriesAct := [
  .push 7 2 ⟨5, 600, by norm_num⟩ 640, .drop, .push 7 2 ⟨4, 400, by norm_num⟩ 700,
  .push 7 2 ⟨3, 1200, by norm_num⟩ 1240]

/-- The second that closed before a tick newer than the drop's newest had come is not NaN. -/
theorem second_values_older_tick : ¬ ∀ (o : SecondSeriesOptions) (acts : List SeriesAct) (a : ℕ) (s : ℤ)
    (before after : List PairEntry),
    pairLog a (run (WatchedSeries.act o) {} acts).log = before ++ .closed s :: after →
    (run (WatchedSeries.act o) {} acts).holds o a s = true →
    ((run (WatchedSeries.act o) {} acts).series.close o a s = none ↔ newerPending before = true) := by
  intro h
  have hclaim := h ⟨320, 500, by norm_num, by norm_num⟩ olderTickAfterDrop 7 1000
    [.applied ⟨5, 600, by norm_num⟩ 640, .dropped, .applied ⟨4, 400, by norm_num⟩ 700]
    [.applied ⟨3, 1200, by norm_num⟩ 1240] (by decide +kernel) (by decide +kernel)
  have hprice : (run (WatchedSeries.act ⟨320, 500, by norm_num, by norm_num⟩) {}
      olderTickAfterDrop).series.close ⟨320, 500, by norm_num, by norm_num⟩ 7 1000 = some 5 := by
    decide +kernel
  have hpending : newerPending [.applied ⟨5, 600, by norm_num⟩ 640, .dropped,
      .applied ⟨4, 400, by norm_num⟩ 700] = true := by decide +kernel
  rw [hclaim.mpr hpending] at hprice
  exact nomatch hprice

end Values

end Binarius
