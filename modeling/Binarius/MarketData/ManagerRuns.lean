import Mathlib.Tactic
import Binarius.Lib.Runs
import Binarius.MarketData.Manager

/-!
# MarketData.ManagerRuns — the manager's slots and feed over whole runs

* `SlotsOk`: a slot's client is neither detached nor stopped, every other client is both, and the two
  slots have two accounts.
* `TailOk`: since the newest hole every tick came from the active client's connection, which is ready.
* `Inv`: **the invariant**; `Inv.vacate`, `Inv.reconcile`, `Inv.noteState`: what the steps keep of it.
* `market_data_manager`: whole runs.
-/

namespace Binarius

open Lib

def FeedEntry.isPush : FeedEntry → Bool
  | .push _ => true
  | .drop => false

/-- Where a tick came from: a client, and which of its connections. -/
def FeedTick.source (tick : FeedTick) : ℕ × ℕ := (tick.live, tick.connection)

namespace MarketManager

/-- The newest entries, down to the newest hole. -/
def sinceDrop (feed : List FeedEntry) : List FeedEntry := feed.takeWhile FeedEntry.isPush

@[simp] theorem sinceDrop_drop (feed : List FeedEntry) : sinceDrop (.drop :: feed) = [] := rfl

@[simp] theorem sinceDrop_push (tick : FeedTick) (feed : List FeedEntry) :
    sinceDrop (.push tick :: feed) = .push tick :: sinceDrop feed := rfl

/-- Ticks with no hole between them came from one place. -/
def SourcesCut : List FeedEntry → Prop
  | [] => True
  | .drop :: feed => SourcesCut feed
  | .push tick :: feed => (∀ older, .push older ∈ sinceDrop feed → older.source = tick.source) ∧
      SourcesCut feed

structure SlotsOk (a b : MarketSlot) (lives : List MarketLive) : Prop where
  left : ∀ i, a = .running i → ∃ l, lives[i]? = some l ∧ l.detached = false ∧ l.stopped = false
  right : ∀ i, b = .running i → ∃ l, lives[i]? = some l ∧ l.detached = false ∧ l.stopped = false
  gone : ∀ (i : ℕ) (l : MarketLive), lives[i]? = some l → a ≠ .running i → b ≠ .running i →
    l.detached = true ∧ l.stopped = true
  distinct : ∀ x y, a.accountOf lives = some x → b.accountOf lives = some y → x.id ≠ y.id

def TailOk (active : MarketSlot) (lives : List MarketLive) (feed : List FeedEntry) : Prop :=
  ∀ tick, .push tick ∈ sinceDrop feed → active = .running tick.live ∧
    ∃ l, lives[tick.live]? = some l ∧ l.state = .ready ∧ l.connections = tick.connection

structure Inv (s : MarketManager) : Prop where
  slots : SlotsOk s.active s.reserve s.lives
  tail : s.stopped = false → TailOk s.active s.lives s.feed
  ended : s.stopped = true → s.active = .empty ∧ s.reserve = .empty
  pushed : ∀ tick, .push tick ∈ s.feed → tick.active = some tick.live
  cut : SourcesCut s.feed

theorem Inv.start : Inv MarketManager.start where
  slots := by
    refine ⟨fun i h => ?_, fun i h => ?_, fun i l h => ?_, fun x y h => ?_⟩
    · cases h
    · cases h
    · simp [MarketManager.start] at h
    · cases h
  tail _ tick h := by
    simp [MarketManager.start, sinceDrop] at h
  ended h := by cases h
  pushed tick h := by
    simp [MarketManager.start] at h
  cut := trivial

/-! ### The two slots -/

section Slots

variable {a b : MarketSlot} {lives : List MarketLive}

theorem SlotsOk.symm (h : SlotsOk a b lives) : SlotsOk b a lives where
  left := h.right
  right := h.left
  gone i l hl ha hb := h.gone i l hl hb ha
  distinct x y hx hy := (h.distinct y x hy hx).symm

theorem live_modify (i j : ℕ) (f : MarketLive → MarketLive) :
    (lives.modify i f)[j]? = lives[j]?.map (fun l => if i = j then f l else l) := by
  rw [List.getElem?_modify]
  rfl

theorem live_modify_ne {i j : ℕ} (h : i ≠ j) (f : MarketLive → MarketLive) :
    (lives.modify i f)[j]? = lives[j]? := by
  rw [live_modify]
  cases lives[j]? with
  | none => rfl
  | some l => rw [Option.map_some, if_neg h]

theorem live_modify_self (i : ℕ) (f : MarketLive → MarketLive) :
    (lives.modify i f)[i]? = lives[i]?.map f := by
  rw [live_modify]
  cases lives[i]? with
  | none => rfl
  | some l => rw [Option.map_some, if_pos rfl, Option.map_some]

theorem accountOf_running (i : ℕ) :
    (MarketSlot.running i).accountOf lives = lives[i]?.map MarketLive.account := rfl

theorem accountOf_modify (slot : MarketSlot) (i : ℕ) {f : MarketLive → MarketLive}
    (hf : ∀ l, (f l).account = l.account) : slot.accountOf (lives.modify i f) = slot.accountOf lives := by
  cases slot with
  | empty => rfl
  | starting job => rfl
  | running j =>
    show (lives.modify i f)[j]?.map MarketLive.account = lives[j]?.map MarketLive.account
    rw [live_modify]
    cases lives[j]? with
    | none => rfl
    | some l =>
      rw [Option.map_some, Option.map_some, Option.map_some]
      split_ifs
      · rw [hf]
      · rfl

/-- A change of one client that keeps whose it is and whether it is over. -/
theorem SlotsOk.modify (h : SlotsOk a b lives) (i : ℕ) {f : MarketLive → MarketLive}
    (hf : ∀ l, (f l).account = l.account ∧ (f l).detached = l.detached ∧ (f l).stopped = l.stopped) :
    SlotsOk a b (lives.modify i f) := by
  have hlive : ∀ (j : ℕ) (l : MarketLive), lives[j]? = some l → l.detached = false ∧ l.stopped = false →
      ∃ l', (lives.modify i f)[j]? = some l' ∧ l'.detached = false ∧ l'.stopped = false := by
    intro j l hl hok
    rw [live_modify, hl]
    refine ⟨_, rfl, ?_⟩
    split_ifs
    · rw [(hf l).2.1, (hf l).2.2]
      exact hok
    · exact hok
  refine ⟨fun j hj => ?_, fun j hj => ?_, fun j l' hl' ha hb => ?_, fun x y hx hy => ?_⟩
  · obtain ⟨l, hl, hok⟩ := h.left j hj
    exact hlive j l hl hok
  · obtain ⟨l, hl, hok⟩ := h.right j hj
    exact hlive j l hl hok
  · rw [live_modify] at hl'
    obtain ⟨l, hl, rfl⟩ := Option.map_eq_some_iff.mp hl'
    have hgone := h.gone j l hl ha hb
    split_ifs
    · rw [(hf l).2.1, (hf l).2.2]
      exact hgone
    · exact hgone
  · rw [accountOf_modify a i (fun l => (hf l).1)] at hx
    rw [accountOf_modify b i (fun l => (hf l).1)] at hy
    exact h.distinct x y hx hy

/-- One client is not in both slots. -/
theorem SlotsOk.running_ne {i j : ℕ} (h : SlotsOk (.running i) (.running j) lives) : i ≠ j := by
  rintro rfl
  obtain ⟨l, hl, -⟩ := h.left i rfl
  have haccount : (MarketSlot.running i).accountOf lives = some l.account := by
    show lives[i]?.map MarketLive.account = some l.account
    rw [hl]
    rfl
  exact h.distinct _ _ haccount haccount rfl

/-- A slot with no client is left. -/
theorem SlotsOk.leave (h : SlotsOk a b lives) (ha : ∀ i, a ≠ .running i) : SlotsOk .empty b lives where
  left i hi := by cases hi
  right := h.right
  gone i l hl _ hb := h.gone i l hl (ha i) hb
  distinct x y hx := by cases hx

def stopLive (l : MarketLive) : MarketLive := { l with detached := true, stopped := true, state := .idle }

/-- A slot's client is detached and stopped, and the slot left. -/
theorem SlotsOk.stop {i : ℕ} (h : SlotsOk (.running i) b lives) :
    SlotsOk .empty b (lives.modify i stopLive) := by
  refine ⟨fun j hj => (by cases hj), fun j hj => ?_, fun j l' hl' _ hb => ?_, fun x y hx => (by cases hx)⟩
  · subst hj
    obtain ⟨l, hl, hok⟩ := h.right j rfl
    refine ⟨l, ?_, hok⟩
    rw [live_modify_ne h.running_ne]
    exact hl
  · rw [live_modify] at hl'
    obtain ⟨l, hl, rfl⟩ := Option.map_eq_some_iff.mp hl'
    by_cases hij : i = j
    · rw [if_pos hij]
      exact ⟨rfl, rfl⟩
    · rw [if_neg hij]
      refine h.gone j l hl ?_ hb
      intro heq
      injection heq with heq
      exact hij heq

/-- A client in no slot is detached and stopped once more. -/
theorem SlotsOk.stop_gone {i : ℕ} (h : SlotsOk a b lives) (ha : a ≠ .running i) (hb : b ≠ .running i) :
    SlotsOk a b (lives.modify i stopLive) := by
  have hkept : ∀ j, j ≠ i → (lives.modify i stopLive)[j]? = lives[j]? :=
    fun j hj => live_modify_ne (fun heq => hj heq.symm) stopLive
  have haccount : ∀ slot : MarketSlot, slot.accountOf (lives.modify i stopLive) = slot.accountOf lives :=
    fun slot => accountOf_modify slot i (fun _ => rfl)
  refine ⟨fun j hj => ?_, fun j hj => ?_, fun j l hl ha' hb' => ?_, fun x y hx hy => ?_⟩
  · rw [hkept j (fun heq => ha (heq ▸ hj))]
    exact h.left j hj
  · rw [hkept j (fun heq => hb (heq ▸ hj))]
    exact h.right j hj
  · by_cases hij : j = i
    · subst hij
      rw [live_modify_self] at hl
      obtain ⟨l', -, rfl⟩ := Option.map_eq_some_iff.mp hl
      exact ⟨rfl, rfl⟩
    · rw [hkept j hij] at hl
      exact h.gone j l hl ha' hb'
  · rw [haccount] at hx hy
    exact h.distinct x y hx hy

/-- An empty slot waits on a token of an account the other has not. -/
theorem SlotsOk.starts (h : SlotsOk .empty b lives) {job : MarketJob}
    (hne : ∀ y, b.accountOf lives = some y → job.account.id ≠ y.id) : SlotsOk (.starting job) b lives where
  left i hi := by cases hi
  right := h.right
  gone i l hl _ hb := h.gone i l hl (by simp) hb
  distinct x y hx hy := by
    have hx' : job.account = x := by simpa [MarketSlot.accountOf] using hx
    rw [← hx']
    exact hne y hy

/-- The waiting slot's client is opened. -/
theorem SlotsOk.opens {job : MarketJob} (h : SlotsOk (.starting job) b lives) {l : MarketLive}
    (haccount : l.account = job.account) (hlive : l.detached = false ∧ l.stopped = false) :
    SlotsOk (.running lives.length) b (lives ++ [l]) := by
  have hleft : ∀ (j : ℕ) (l' : MarketLive), lives[j]? = some l' → (lives ++ [l])[j]? = some l' := by
    intro j l' hl'
    obtain ⟨hlt, -⟩ := List.getElem?_eq_some_iff.mp hl'
    rw [List.getElem?_append_left hlt]
    exact hl'
  refine ⟨fun j hj => ?_, fun j hj => ?_, fun j l' hl' ha hb => ?_, fun x y hx hy => ?_⟩
  · injection hj with hj
    subst hj
    exact ⟨l, List.getElem?_concat_length .., hlive⟩
  · obtain ⟨l', hl', hok⟩ := h.right j hj
    exact ⟨l', hleft j l' hl', hok⟩
  · rcases lt_trichotomy j lives.length with hlt | heq | hgt
    · rw [List.getElem?_append_left hlt] at hl'
      exact h.gone j l' hl' (by simp) hb
    · exact absurd (by rw [heq]) ha
    · rw [List.getElem?_eq_none (by simp; omega)] at hl'
      cases hl'
  · have hx' : job.account = x := by
      rw [accountOf_running, List.getElem?_concat_length] at hx
      injection hx with hx
      rw [← hx, haccount]
    refine h.distinct x y (by rw [← hx']; rfl) ?_
    cases b with
    | empty => exact hy
    | starting job => exact hy
    | running j =>
      obtain ⟨l', hl', -⟩ := h.right j rfl
      rw [accountOf_running, hleft j l' hl'] at hy
      rw [accountOf_running, hl']
      exact hy

end Slots

/-! ### The feed -/

section Feed

variable {active : MarketSlot} {lives : List MarketLive} {feed : List FeedEntry}

/-- No tick since the newest hole. -/
def Quiet (feed : List FeedEntry) : Prop := ∀ tick, .push tick ∉ sinceDrop feed

theorem quiet_drop (feed : List FeedEntry) : Quiet (.drop :: feed) := by
  intro tick h
  cases h

theorem Quiet.tailOk (h : Quiet feed) (active : MarketSlot) (lives : List MarketLive) :
    TailOk active lives feed := fun tick htick => absurd htick (h tick)

/-- While the active client is not ready there is none. -/
theorem TailOk.quiet (h : TailOk active lives feed) (hnot : ¬ active.IsReady lives) : Quiet feed := by
  intro tick htick
  obtain ⟨hactive, l, hl, hready, -⟩ := h tick htick
  apply hnot
  subst hactive
  show lives[tick.live]?.map MarketLive.state = some .ready
  rw [hl, Option.map_some, hready]

/-- Changes of other clients. -/
theorem TailOk.of_lives (h : TailOk active lives feed) {lives' : List MarketLive}
    (hlives : ∀ (i : ℕ) (l : MarketLive), active = .running i → lives[i]? = some l →
      ∃ l', lives'[i]? = some l' ∧ l'.state = l.state ∧ l'.connections = l.connections) :
    TailOk active lives' feed := by
  intro tick htick
  obtain ⟨hactive, l, hl, hready, hconnections⟩ := h tick htick
  obtain ⟨l', hl', hstate, hcount⟩ := hlives tick.live l hactive hl
  exact ⟨hactive, l', hl', hstate.trans hready, hcount.trans hconnections⟩

end Feed

variable {s : MarketManager} (config : MarketDataConfig) (now : ℕ)

/-- What the invariant reads. -/
theorem Inv.of_same {s' : MarketManager} (h : Inv s) (hactive : s'.active = s.active)
    (hreserve : s'.reserve = s.reserve) (hlives : s'.lives = s.lives) (hfeed : s'.feed = s.feed)
    (hstopped : s'.stopped = s.stopped) : Inv s' := by
  refine ⟨?_, ?_, ?_, ?_, ?_⟩
  · rw [hactive, hreserve, hlives]
    exact h.slots
  · rw [hactive, hlives, hfeed, hstopped]
    exact h.tail
  · rw [hactive, hreserve, hstopped]
    exact h.ended
  · rw [hfeed]
    exact h.pushed
  · rw [hfeed]
    exact h.cut

/-- A change of one client that the invariant does not read. -/
theorem Inv.modify (h : Inv s) (i : ℕ) {f : MarketLive → MarketLive}
    (hf : ∀ l, (f l).account = l.account ∧ (f l).detached = l.detached ∧ (f l).stopped = l.stopped)
    (hfeed : ∀ l, (f l).state = l.state ∧ (f l).connections = l.connections) : Inv (s.modifyLive i f) where
  slots := h.slots.modify i hf
  tail hstopped := by
    refine (h.tail hstopped).of_lives (fun j l _ hl => ?_)
    show ∃ l', (s.lives.modify i f)[j]? = some l' ∧ _
    rw [live_modify, hl]
    refine ⟨_, rfl, ?_⟩
    split_ifs
    · exact hfeed l
    · exact ⟨rfl, rfl⟩
  ended := h.ended
  pushed := h.pushed
  cut := h.cut

theorem Inv.subscribeNew (h : Inv s) (live : ℕ) : Inv (s.subscribeNew live) := by
  unfold MarketManager.subscribeNew
  split_ifs
  · exact h.modify live (fun _ => ⟨rfl, rfl, rfl⟩) (fun _ => ⟨rfl, rfl⟩)
  · exact h

theorem Inv.readCatalog (h : Inv s) (view : Option (List (ℕ × ℤ))) : Inv (s.readCatalog view) := by
  cases view with
  | none => exact h.of_same rfl rfl rfl rfl rfl
  | some pairs => exact h.of_same rfl rfl rfl rfl rfl

theorem Inv.onDrop (h : Inv s) : Inv s.onDrop where
  slots := h.slots
  tail _ := (quiet_drop s.feed).tailOk _ _
  ended := h.ended
  pushed tick htick := by
    rcases List.mem_cons.mp htick with heq | hmem
    · cases heq
    · exact h.pushed tick hmem
  cut := h.cut

/-! ### Leaving a slot -/

theorem active_ne_reserve (h : Inv s) {i j : ℕ} (hi : s.active = .running i) (hj : s.reserve = .running j) :
    i ≠ j := by
  have hslots := h.slots
  rw [hi, hj] at hslots
  exact hslots.running_ne

theorem drop_active_spec (hslots : SlotsOk s.active s.reserve s.lives) :
    SlotsOk .empty s.reserve (s.drop .active).lives ∧ (s.drop .active).active = .empty ∧
      (s.drop .active).reserve = s.reserve ∧ (s.drop .active).feed = s.feed ∧
      (s.drop .active).stopped = s.stopped := by
  unfold MarketManager.drop MarketManager.slot
  cases hactive : s.active with
  | running i =>
    rw [hactive] at hslots
    exact ⟨hslots.stop, rfl, rfl, rfl, rfl⟩
  | empty =>
    rw [hactive] at hslots
    exact ⟨hslots, rfl, rfl, rfl, rfl⟩
  | starting job =>
    rw [hactive] at hslots
    exact ⟨hslots.leave (by simp), rfl, rfl, rfl, rfl⟩

/-- The reserve's client is another than the active's. -/
theorem drop_reserve_spec (hslots : SlotsOk s.active s.reserve s.lives) :
    SlotsOk s.active .empty (s.drop .reserve).lives ∧ (s.drop .reserve).active = s.active ∧
      (s.drop .reserve).reserve = .empty ∧ (s.drop .reserve).feed = s.feed ∧
      (s.drop .reserve).stopped = s.stopped ∧
      ∀ (i : ℕ) (l : MarketLive), s.active = .running i → s.lives[i]? = some l →
        (s.drop .reserve).lives[i]? = some l := by
  unfold MarketManager.drop MarketManager.slot
  cases hreserve : s.reserve with
  | running j =>
    rw [hreserve] at hslots
    refine ⟨hslots.symm.stop.symm, rfl, rfl, rfl, rfl, fun i l hi hl => ?_⟩
    rw [hi] at hslots
    have hne := hslots.running_ne
    show (s.lives.modify j stopLive)[i]? = some l
    rw [live_modify_ne (fun heq => hne heq.symm)]
    exact hl
  | empty =>
    rw [hreserve] at hslots
    exact ⟨hslots, rfl, rfl, rfl, rfl, fun i l _ hl => hl⟩
  | starting job =>
    rw [hreserve] at hslots
    exact ⟨(hslots.symm.leave (by simp)).symm, rfl, rfl, rfl, rfl, fun i l _ hl => hl⟩

/-- The active slot is left when nothing was pushed since a hole. -/
theorem Inv.drop_active (h : Inv s) (hquiet : s.stopped = false → Quiet s.feed) : Inv (s.drop .active) := by
  obtain ⟨hslots, hempty, hkept, hfeed, hsame⟩ := drop_active_spec h.slots
  refine ⟨?_, ?_, ?_, ?_, ?_⟩
  · rw [hempty, hkept]
    exact hslots
  · rw [hsame, hfeed]
    exact fun hst => (hquiet hst).tailOk _ _
  · rw [hsame, hempty, hkept]
    exact fun hst => ⟨rfl, (h.ended hst).2⟩
  · rw [hfeed]
    exact h.pushed
  · rw [hfeed]
    exact h.cut

/-- The reserve is left: the feed is the active's. -/
theorem Inv.drop_reserve (h : Inv s) : Inv (s.drop .reserve) := by
  obtain ⟨hslots, hkept, hempty, hfeed, hsame, hlives⟩ := drop_reserve_spec h.slots
  refine ⟨?_, ?_, ?_, ?_, ?_⟩
  · rw [hempty, hkept]
    exact hslots
  · rw [hsame, hfeed, hkept]
    exact fun hst => (h.tail hst).of_lives (fun i l hi hl => ⟨l, hlives i l hi hl, rfl, rfl⟩)
  · rw [hsame, hempty, hkept]
    exact fun hst => ⟨(h.ended hst).1, rfl⟩
  · rw [hfeed]
    exact h.pushed
  · rw [hfeed]
    exact h.cut

theorem drop_both_spec (hslots : SlotsOk s.active s.reserve s.lives) :
    SlotsOk .empty .empty ((s.drop .active).drop .reserve).lives ∧
      ((s.drop .active).drop .reserve).active = .empty ∧ ((s.drop .active).drop .reserve).reserve = .empty ∧
      ((s.drop .active).drop .reserve).feed = s.feed ∧
      ((s.drop .active).drop .reserve).stopped = s.stopped := by
  obtain ⟨hslots', hempty, hkept, hfeed, hsame⟩ := drop_active_spec hslots
  have hdropped : SlotsOk (s.drop .active).active (s.drop .active).reserve (s.drop .active).lives := by
    rw [hempty, hkept]
    exact hslots'
  obtain ⟨hboth, hkept', hempty', hfeed', hsame', -⟩ := drop_reserve_spec hdropped
  rw [hempty] at hboth hkept'
  exact ⟨hboth, hkept', hempty', hfeed'.trans hfeed, hsame'.trans hsame⟩

/-- The manager stops: silently, so nothing may be pushed after it. -/
theorem Inv.stop (h : Inv s) :
    Inv (({ s with stopped := true, deadline := none }.drop .active).drop .reserve) := by
  obtain ⟨hslots, hactive, hreserve, hfeed, hsame⟩ :=
    @drop_both_spec { s with stopped := true, deadline := none } h.slots
  refine ⟨?_, ?_, fun _ => ⟨hactive, hreserve⟩, ?_, ?_⟩
  · rw [hactive, hreserve]
    exact hslots
  · rw [hsame]
    exact fun hst => (by cases hst)
  · rw [hfeed]
    exact h.pushed
  · rw [hfeed]
    exact h.cut

theorem Inv.holdBack (h : Inv s) (accountId : String) : Inv (s.holdBack config now accountId) :=
  h.of_same rfl rfl rfl rfl rfl

/-- A slot with an account to tell is not empty; a slot with none is. -/
theorem accountOf_eq_none (h : Inv s) {role : MarketRole} (hnone : (s.slot role).accountOf s.lives = none) :
    s.slot role = .empty := by
  cases hslot : s.slot role with
  | empty => rfl
  | starting job =>
    rw [hslot] at hnone
    cases hnone
  | running i =>
    have hlive : ∃ l, s.lives[i]? = some l ∧ l.detached = false ∧ l.stopped = false := by
      cases role with
      | active => exact h.slots.left i hslot
      | reserve => exact h.slots.right i hslot
    obtain ⟨l, hl, -⟩ := hlive
    rw [hslot] at hnone
    rw [accountOf_running, hl] at hnone
    cases hnone

/-- **The active leaves**: nothing pushed since a hole, and the reserve as it was. -/
theorem Inv.leave_active (h : Inv s) : Inv (s.leave .active) ∧ (s.leave .active).active = .empty ∧
    (s.leave .active).reserve = s.reserve ∧ (s.leave .active).stopped = s.stopped ∧
      (s.stopped = false → Quiet (s.leave .active).feed) := by
  unfold MarketManager.leave
  split_ifs with hready
  · obtain ⟨-, hempty, hkept, hfeed, hsame⟩ := drop_active_spec h.onDrop.slots
    refine ⟨h.onDrop.drop_active (fun _ => quiet_drop s.feed), hempty, hkept, hsame, fun _ => ?_⟩
    rw [hfeed]
    exact quiet_drop s.feed
  · have hquiet : s.stopped = false → Quiet s.feed :=
      fun hst => (h.tail hst).quiet (fun hr => hready ⟨rfl, hr⟩)
    obtain ⟨-, hempty, hkept, hfeed, hsame⟩ := drop_active_spec h.slots
    refine ⟨h.drop_active hquiet, hempty, hkept, hsame, fun hst => ?_⟩
    rw [hfeed]
    exact hquiet hst

theorem leave_reserve : s.leave .reserve = s.drop .reserve := by
  unfold MarketManager.leave
  rw [if_neg (fun hrole => (by cases hrole.1))]

/-- **The active is vacated.** -/
theorem Inv.vacate_active (h : Inv s) (hold : Bool) :
    Inv (s.vacate config now .active hold) ∧ (s.vacate config now .active hold).active = .empty ∧
      (s.vacate config now .active hold).reserve = s.reserve ∧
      ((s.vacate config now .active hold).stopped = s.stopped) ∧
      (s.stopped = false → Quiet (s.vacate config now .active hold).feed) := by
  unfold MarketManager.vacate
  cases haccount : (s.slot .active).accountOf s.lives with
  | none =>
    have hempty : s.active = .empty := accountOf_eq_none h haccount
    refine ⟨h, hempty, rfl, rfl, fun hst => (h.tail hst).quiet ?_⟩
    rw [hempty]
    exact fun hnot => hnot
  | some account =>
    obtain ⟨hinv, hempty, hkept, hsame, hquiet⟩ := h.leave_active
    cases hold with
    | true => exact ⟨hinv.holdBack config now account.id, hempty, hkept, hsame, hquiet⟩
    | false => exact ⟨hinv, hempty, hkept, hsame, hquiet⟩

theorem Inv.vacate_reserve (h : Inv s) (hold : Bool) :
    Inv (s.vacate config now .reserve hold) ∧ (s.vacate config now .reserve hold).active = s.active ∧
      (s.vacate config now .reserve hold).stopped = s.stopped := by
  unfold MarketManager.vacate
  cases haccount : (s.slot .reserve).accountOf s.lives with
  | none => exact ⟨h, rfl, rfl⟩
  | some account =>
    obtain ⟨-, hkept, -, -, hsame, -⟩ := drop_reserve_spec h.slots
    have hdrop := h.drop_reserve
    rw [← leave_reserve] at hdrop hkept hsame
    cases hold with
    | true => exact ⟨hdrop.holdBack config now account.id, hkept, hsame⟩
    | false => exact ⟨hdrop, hkept, hsame⟩

theorem Inv.vacate (h : Inv s) (role : MarketRole) (hold : Bool) :
    Inv (s.vacate config now role hold) ∧ (s.vacate config now role hold).stopped = s.stopped := by
  cases role with
  | active =>
    obtain ⟨hinv, -, -, hstopped, -⟩ := h.vacate_active config now hold
    exact ⟨hinv, hstopped⟩
  | reserve =>
    obtain ⟨hinv, -, hstopped⟩ := h.vacate_reserve config now hold
    exact ⟨hinv, hstopped⟩

/-! ### The steps of `reconcile` -/

theorem subscribeNew_stopped (live : ℕ) : (s.subscribeNew live).stopped = s.stopped := by
  unfold MarketManager.subscribeNew
  split_ifs <;> rfl

/-- **The reserve becomes the active**: the old active's ticks end in a hole. -/
theorem Inv.promote (h : Inv s) :
    Inv (s.promote config now) ∧ (s.promote config now).stopped = s.stopped := by
  unfold MarketManager.promote
  cases hreserve : s.reserve with
  | empty => exact ⟨h, rfl⟩
  | starting job => exact ⟨h, rfl⟩
  | running i =>
    obtain ⟨hinv, hempty, hkept, hstopped, hquiet⟩ := h.vacate_active config now false
    have hslots := hinv.slots
    rw [hempty, hkept, hreserve] at hslots
    have hmoved : Inv { s.vacate config now .active false with active := .running i, reserve := .empty } := by
      refine ⟨hslots.symm, fun hst => (hquiet (hstopped ▸ hst)).tailOk _ _, fun hst => ?_, hinv.pushed,
        hinv.cut⟩
      have hgone := (h.ended (hstopped ▸ hst)).2
      rw [hreserve] at hgone
      cases hgone
    exact ⟨hmoved.subscribeNew i, (subscribeNew_stopped i).trans hstopped⟩

theorem Inv.vacateUnlisted (h : Inv s) (role : MarketRole) :
    Inv (s.vacateUnlisted config now role) ∧ (s.vacateUnlisted config now role).stopped = s.stopped := by
  unfold MarketManager.vacateUnlisted
  cases (s.slot role).accountOf s.lives with
  | none => exact ⟨h, rfl⟩
  | some account =>
    simp only
    split_ifs
    · exact h.vacate config now role false
    · exact ⟨h, rfl⟩

theorem Inv.vacateLate (h : Inv s) :
    Inv (s.vacateLate config now) ∧ (s.vacateLate config now).stopped = s.stopped := by
  unfold MarketManager.vacateLate
  cases s.reserve.sinceOf s.lives with
  | none => exact ⟨h, rfl⟩
  | some since =>
    simp only
    split_ifs
    · exact h.vacate config now .reserve true
    · exact ⟨h, rfl⟩

theorem Inv.promoteReady (h : Inv s) :
    Inv (s.promoteReady config now) ∧ (s.promoteReady config now).stopped = s.stopped := by
  unfold MarketManager.promoteReady
  split_ifs
  · exact h.promote config now
  · exact ⟨h, rfl⟩

theorem Inv.startEmpty (h : Inv s) (hstopped : s.stopped = false) (role : MarketRole) :
    Inv (s.startEmpty now role) ∧ (s.startEmpty now role).stopped = s.stopped := by
  unfold MarketManager.startEmpty
  split_ifs with hempty
  · cases hcandidates : s.candidates now role with
    | nil => exact ⟨h, rfl⟩
    | cons account rest =>
      have hmem : account ∈ s.candidates now role := by
        rw [hcandidates]
        exact List.mem_cons_self
      refine ⟨?_, by cases role <;> rfl⟩
      have hslots := h.slots
      cases role with
      | active =>
        have hempty' : s.active = .empty := hempty
        have hother : (s.reserve.accountOf s.lives).map MarketDataAccount.id ≠ some account.id :=
          (of_decide_eq_true (List.mem_filter.mp hmem).2).1
        rw [hempty'] at hslots
        refine ⟨hslots.starts (fun y hy heq => ?_), fun _ => ?_, fun hst => ?_, h.pushed, h.cut⟩
        · rw [hy] at hother
          exact hother (by rw [Option.map_some, heq])
        · refine ((h.tail hstopped).quiet ?_).tailOk _ _
          rw [hempty']
          exact fun hnot => hnot
        · rw [show s.stopped = true from hst] at hstopped
          cases hstopped
      | reserve =>
        have hempty' : s.reserve = .empty := hempty
        have hother : (s.active.accountOf s.lives).map MarketDataAccount.id ≠ some account.id :=
          (of_decide_eq_true (List.mem_filter.mp hmem).2).1
        rw [hempty'] at hslots
        refine ⟨(hslots.symm.starts (fun y hy heq => ?_)).symm, fun _ => h.tail hstopped, fun hst => ?_,
          h.pushed, h.cut⟩
        · rw [hy] at hother
          exact hother (by rw [Option.map_some, heq])
        · rw [show s.stopped = true from hst] at hstopped
          cases hstopped
  · exact ⟨h, rfl⟩

theorem Inv.subscribeActive (h : Inv s) : Inv s.subscribeActive := by
  unfold MarketManager.subscribeActive
  cases s.active with
  | running live => exact h.subscribeNew live
  | empty => exact h
  | starting job => exact h

/-- **The seven rules keep the invariant.** -/
theorem Inv.reconcile (h : Inv s) (reading : MarketReading) : Inv (s.reconcile config reading) := by
  unfold MarketManager.reconcile
  by_cases hstopped : s.stopped = true
  · rw [if_pos hstopped]
    exact h
  · rw [if_neg hstopped]
    have hgoing : s.stopped = false := by simpa using hstopped
    have hread := h.readCatalog reading.catalog
    have hread' : (s.readCatalog reading.catalog).stopped = false := by
      cases hcatalog : reading.catalog <;> exact hgoing
    obtain ⟨h1, hs1⟩ := hread.vacateUnlisted config reading.now .active
    obtain ⟨h2, hs2⟩ := h1.vacateUnlisted config reading.now .reserve
    obtain ⟨h3, hs3⟩ := h2.vacateLate config reading.now
    obtain ⟨h4, hs4⟩ := h3.promoteReady config reading.now
    have hs4' := hs4.trans (hs3.trans (hs2.trans (hs1.trans hread')))
    obtain ⟨h5, hs5⟩ := h4.startEmpty reading.now hs4' .active
    obtain ⟨h6, -⟩ := h5.startEmpty reading.now (hs5.trans hs4') .reserve
    exact h6.subscribeActive.of_same rfl rfl rfl rfl rfl

/-! ### The listeners -/

theorem roleOf_none {i : ℕ} (h : s.roleOf i = none) : s.active ≠ .running i ∧ s.reserve ≠ .running i := by
  unfold MarketManager.roleOf at h
  split_ifs at h with hactive hreserve
  exact ⟨hactive, hreserve⟩

theorem slot_of_roleOf {i : ℕ} {role : MarketRole} (h : s.roleOf i = some role) :
    s.slot role = .running i := by
  unfold MarketManager.roleOf at h
  split_ifs at h with hactive hreserve
  · injection h with h
    subst h
    exact hactive
  · injection h with h
    subst h
    exact hreserve

theorem not_ready_of_live {i : ℕ} {l : MarketLive} (hl : s.lives[i]? = some l) (hstate : l.state ≠ .ready) :
    ¬ (MarketSlot.running i).IsReady s.lives := by
  show ¬ s.lives[i]?.map MarketLive.state = some .ready
  rw [hl, Option.map_some]
  intro heq
  injection heq with heq
  exact hstate heq

/-- A client changes its state: the active's change needs a hole behind the newest tick. -/
theorem Inv.changeState (h : Inv s) (i : ℕ) (after : BrokerSocketState)
    (hquiet : s.active = .running i → s.stopped = false → Quiet s.feed) : Inv (s.changeState i after) where
  slots := h.slots.modify i (fun _ => ⟨rfl, rfl, rfl⟩)
  tail hst := by
    by_cases hactive : s.active = .running i
    · exact (hquiet hactive hst).tailOk _ _
    · refine (h.tail hst).of_lives (fun j l hj hl => ⟨l, ?_, rfl, rfl⟩)
      have hne : i ≠ j := by
        rintro rfl
        exact hactive hj
      show (s.lives.modify i _)[j]? = some l
      rw [live_modify_ne hne]
      exact hl
  ended := h.ended
  pushed := h.pushed
  cut := h.cut

/-- **A change of state with the listener's first part.** -/
theorem Inv.noteState (h : Inv s) {i : ℕ} {l : MarketLive} {role : MarketRole} {after : BrokerSocketState}
    (hl : s.lives[i]? = some l) (hne : l.state ≠ after) (hrole : s.roleOf i = some role) :
    Inv ((s.changeState i after).noteState now i role l.state after) := by
  have hnotReady : l.state ≠ .ready → s.active = .running i → s.stopped = false → Quiet s.feed := by
    intro hstate hactive hst
    refine (h.tail hst).quiet ?_
    rw [hactive]
    exact not_ready_of_live hl hstate
  unfold MarketManager.noteState
  split_ifs with hready hbefore hactive
  · subst hready
    exact (h.changeState i _ (hnotReady hne)).modify i (fun _ => ⟨rfl, rfl, rfl⟩) (fun _ => ⟨rfl, rfl⟩)
  · -- the active stops being ready: the hole is written before another tick can come
    have hdropped := h.onDrop.changeState i after (fun _ _ => quiet_drop s.feed)
    exact hdropped.modify i (f := fun l => { l with since := some now }) (fun _ => ⟨rfl, rfl, rfl⟩)
      (fun _ => ⟨rfl, rfl⟩)
  · have hreserve : s.reserve = .running i := by
      have hslot := slot_of_roleOf hrole
      cases role with
      | active => exact absurd rfl hactive
      | reserve => exact hslot
    have hother := h.changeState i after (fun hact => absurd rfl (active_ne_reserve h hact hreserve))
    exact hother.modify i (fun _ => ⟨rfl, rfl, rfl⟩) (fun _ => ⟨rfl, rfl⟩)
  · exact h.changeState i after (hnotReady hbefore)

theorem Inv.noteEnd (h : Inv s) (hashToken : String → String) (i : ℕ) (role : MarketRole)
    (after : BrokerSocketState) : Inv (s.noteEnd config hashToken now i role after) := by
  unfold MarketManager.noteEnd
  split_ifs
  · exact (h.vacate config now role true).1
  · cases s.lives[i]? with
    | none => exact h
    | some l =>
      have hnoted : Inv { s with
          lastRefusal := Function.update s.lastRefusal l.account.id (some now)
          refused := Function.update s.refused l.account.id (some (hashToken l.token)) } :=
        h.of_same rfl rfl rfl rfl rfl
      exact (hnoted.vacate config now role _).1
  · exact h

theorem Inv.onState (h : Inv s) (hashToken : String → String) (reading : MarketReading) {i : ℕ}
    {l : MarketLive} {after : BrokerSocketState} (hl : s.lives[i]? = some l) (hne : l.state ≠ after) :
    Inv ((s.changeState i after).onState config hashToken reading i l.state after) := by
  unfold MarketManager.onState
  have hsame : (s.changeState i after).roleOf i = s.roleOf i := rfl
  rw [hsame]
  cases hrole : s.roleOf i with
  | none => exact h.changeState i after (fun hact => absurd hact (roleOf_none hrole).1)
  | some role => exact ((h.noteState reading.now hl hne hrole).noteEnd config reading.now hashToken i role
      after).reconcile config reading

/-- **A tick of the active client joins its own.** -/
theorem Inv.push (h : Inv s) {i : ℕ} {l : MarketLive} (hactive : s.active = .running i)
    (hl : s.lives[i]? = some l) (hready : l.state = .ready) {tick : FeedTick} (hlive : tick.live = i)
    (hconnection : tick.connection = l.connections) (hrecorded : tick.active = some i) :
    Inv { s with feed := .push tick :: s.feed } := by
  have hgoing : s.stopped = false := by
    cases hst : s.stopped with
    | false => rfl
    | true =>
      have hempty := (h.ended hst).1
      rw [hactive] at hempty
      cases hempty
  have htail := h.tail hgoing
  refine ⟨h.slots, fun _ older holder => ?_, h.ended, fun older holder => ?_, fun older holder => ?_, h.cut⟩
  · rw [sinceDrop_push] at holder
    rcases List.mem_cons.mp holder with heq | hmem
    · injection heq with heq
      subst heq
      rw [hlive]
      exact ⟨hactive, l, hl, hready, hconnection.symm⟩
    · exact htail older hmem
  · rcases List.mem_cons.mp holder with heq | hmem
    · injection heq with heq
      rw [heq, hrecorded, hlive]
    · exact h.pushed older hmem
  · obtain ⟨hactive', l', hl', -, hconnections⟩ := htail older holder
    rw [hactive] at hactive'
    injection hactive' with hsame
    rw [← hsame, hl] at hl'
    injection hl' with hl'
    subst hl'
    show (older.live, older.connection) = (tick.live, tick.connection)
    rw [← hsame, hlive, hconnection, hconnections]

theorem Inv.onEvent (h : Inv s) (reading : MarketReading) {i : ℕ} {l : MarketLive} {event : MarketEvent}
    (hl : s.lives[i]? = some l) (hready : event.isPrice = true → l.state = .ready) :
    Inv (s.onEvent config reading i event) := by
  unfold MarketManager.onEvent
  rw [hl]
  cases hrole : s.roleOf i with
  | none => exact h
  | some role =>
    cases event with
    | priceUpdate assetId tick =>
      simp only
      split_ifs with hactive
      · have hslot := slot_of_roleOf hrole
        rw [hactive] at hslot
        have hslot' : s.active = .running i := hslot
        cases s.digitsById.get? assetId with
        | none => exact h
        | some digits =>
          simp only
          exact h.push hslot' hl (hready rfl) rfl rfl (by rw [hslot'])
      · exact h
    | userData userId =>
      simp only
      split_ifs
      · exact h
      · exact (h.vacate config reading.now role true).1.reconcile config reading
    | other => exact h

/-! ### A client's start -/

theorem not_stopped_of_slot (h : Inv s) {role : MarketRole} (hslot : s.slot role ≠ .empty) :
    s.stopped = false := by
  cases hst : s.stopped with
  | false => rfl
  | true =>
    obtain ⟨hactive, hreserve⟩ := h.ended hst
    cases role with
    | active => exact absurd hactive hslot
    | reserve => exact absurd hreserve hslot

/-- A slot that is not a ready client's is left. -/
theorem Inv.drop (h : Inv s) (role : MarketRole) (hnot : ¬ (s.slot role).IsReady s.lives) :
    Inv (s.drop role) := by
  cases role with
  | active => exact h.drop_active (fun hst => (h.tail hst).quiet hnot)
  | reserve => exact h.drop_reserve

theorem Inv.clear (h : Inv s) {role : MarketRole} {job : MarketJob} (hslot : s.slot role = .starting job) :
    Inv (s.setSlot role .empty) := by
  have hdrop : s.drop role = s.setSlot role .empty := by
    unfold MarketManager.drop
    rw [hslot]
  rw [← hdrop]
  refine h.drop role ?_
  rw [hslot]
  exact fun hnot => hnot

theorem Inv.openLive (h : Inv s) (reading : MarketReading) {role : MarketRole} {job : MarketJob}
    (hslot : s.slot role = .starting job) (token : String) : Inv (s.openLive reading role job token) := by
  have hgoing : s.stopped = false := @not_stopped_of_slot s h role (by rw [hslot]; simp)
  have hnotStopped : s.stopped ≠ true := by
    rw [hgoing]
    decide
  unfold MarketManager.openLive
  cases role with
  | active =>
    have hactive : s.active = .starting job := hslot
    have hslots := h.slots
    rw [hactive] at hslots
    have hquiet : Quiet s.feed := by
      refine (h.tail hgoing).quiet ?_
      rw [hactive]
      exact fun hnot => hnot
    rw [if_pos rfl]
    refine Inv.subscribeNew (Inv.readCatalog ?_ reading.catalog) _
    exact ⟨hslots.opens rfl ⟨rfl, rfl⟩, fun _ => hquiet.tailOk _ _, fun hst => absurd hst hnotStopped,
      h.pushed, h.cut⟩
  | reserve =>
    have hreserve : s.reserve = .starting job := hslot
    have hslots := h.slots
    rw [hreserve] at hslots
    rw [if_neg (by simp)]
    refine ⟨(hslots.symm.opens rfl ⟨rfl, rfl⟩).symm, fun _ => ?_, fun hst => absurd hst hnotStopped,
      h.pushed, h.cut⟩
    refine (h.tail hgoing).of_lives (fun i l _ hl => ⟨l, ?_, rfl, rfl⟩)
    obtain ⟨hlt, -⟩ := List.getElem?_eq_some_iff.mp hl
    show (s.lives ++ _)[i]? = some l
    rw [List.getElem?_append_left hlt]
    exact hl

/-- **A start that threw** had no tick: its client was never ready. -/
theorem Inv.startThrew (h : Inv s) {opening : MarketStart} {l : MarketLive}
    (hl : s.lives[opening.live]? = some l) (hstate : l.state ≠ .ready) :
    Inv (s.startThrew config now opening) := by
  have hcleared : ∀ ended : MarketManager, Inv ended →
      Inv ((if ended.slot opening.role = .starting opening.job then ended.setSlot opening.role .empty
        else ended).holdBack config now opening.job.account.id) := by
    intro ended hended
    split_ifs with hslot
    · exact (hended.clear hslot).holdBack config now _
    · exact hended.holdBack config now _
  unfold MarketManager.startThrew
  simp only
  cases hrole : s.roleOf opening.live with
  | some role =>
    refine hcleared _ ?_
    have hslot := slot_of_roleOf hrole
    have hdrop : s.drop role = (s.setSlot role .empty).detachAndStop opening.live := by
      unfold MarketManager.drop
      rw [hslot]
    show Inv ((s.setSlot role .empty).detachAndStop opening.live)
    rw [← hdrop]
    refine h.drop role ?_
    rw [hslot]
    exact not_ready_of_live hl hstate
  | none =>
    refine hcleared _ ?_
    obtain ⟨hactive, hreserve⟩ := roleOf_none hrole
    refine ⟨h.slots.stop_gone hactive hreserve, fun hst => ?_, h.ended, h.pushed, h.cut⟩
    refine (h.tail hst).of_lives (fun j l' hj hl' => ⟨l', ?_, rfl, rfl⟩)
    have hne : opening.live ≠ j := by
      intro heq
      rw [← heq] at hj
      exact hactive hj
    show (s.lives.modify opening.live stopLive)[j]? = some l'
    rw [live_modify_ne hne]
    exact hl'

/-! ### Whole runs -/

variable (hashToken : String → String)

/-- **One event keeps the invariant.** -/
theorem Inv.act (e : Act) (h : Inv s) : Inv (s.act config hashToken e) := by
  cases e with
  | listed accounts reading =>
    unfold MarketManager.act
    simp only
    split_ifs
    · have hlisted : Inv { s with
          order := accounts
          held := fun id => (s.held id).filter (fun retryAt => reading.now < retryAt)
          lastRefusal := fun id => (s.lastRefusal id).filter (fun refusedAt =>
            reading.now < refusedAt + config.accountRetryMs) } := h.of_same rfl rfl rfl rfl rfl
      exact hlisted.reconcile config reading
    · exact h
  | answer index answer reading =>
    cases hopening : s.opening with
    | some opening => simpa only [MarketManager.act, hopening] using h
    | none =>
      cases hrequest : s.requests[index]? with
      | none => simpa only [MarketManager.act, hopening, hrequest] using h
      | some request =>
        simp only [MarketManager.act, hopening, hrequest]
        have hasked : Inv { s with requests := s.requests.eraseIdx index, opening := none } :=
          h.of_same rfl rfl rfl rfl rfl
        split_ifs with hslot
        · have hclear := ((hasked.holdBack config reading.now request.job.account.id).clear
            hslot).reconcile config reading
          cases answer with
          | refused => exact hclear
          | token token opened =>
            cases opened with
            | true => exact hasked.openLive reading hslot token
            | false => exact hclear
        · exact hasked
  | state live after reading =>
    cases hl : s.lives[live]? with
    | none => simpa only [MarketManager.act, hl] using h
    | some l =>
      simp only [MarketManager.act, hl]
      split_ifs with henabled hdetached
      · -- a detached client is in no slot
        refine h.changeState live after (fun hactive => ?_)
        obtain ⟨l', hl', hlive, -⟩ := h.slots.left live hactive
        rw [hl] at hl'
        injection hl' with hl'
        rw [← hl', hdetached] at hlive
        cases hlive
      · exact h.onState config hashToken reading hl henabled.2
      · exact h
  | event live event reading =>
    cases hl : s.lives[live]? with
    | none => simpa only [MarketManager.act, hl] using h
    | some l =>
      simp only [MarketManager.act, hl]
      split_ifs with henabled
      · exact h.onEvent config reading hl henabled.2.2
      · exact h
  | returned reading =>
    cases hopening : s.opening with
    | none => simpa only [MarketManager.act, hopening] using h
    | some opening =>
      simp only [MarketManager.act, hopening]
      have hreturned : Inv { s with opening := none } := h.of_same rfl rfl rfl rfl rfl
      exact hreturned.reconcile config reading
  | threw reading =>
    cases hopening : s.opening with
    | none => simpa only [MarketManager.act, hopening] using h
    | some opening =>
      simp only [MarketManager.act, hopening]
      split_ifs with henabled
      · obtain ⟨l, hl, hstate⟩ := henabled
        have hended : Inv { s with opening := none } := h.of_same rfl rfl rfl rfl rfl
        refine (hended.startThrew config reading.now hl ?_).reconcile config reading
        rcases hstate with hidle | hconnecting
        · rw [hidle]
          decide
        · rw [hconnecting]
          decide
      · exact h
  | deadline reading =>
    unfold MarketManager.act
    simp only
    split_ifs
    · have hfired : Inv { s with deadline := none } := h.of_same rfl rfl rfl rfl rfl
      exact hfired.reconcile config reading
    · exact h
  | stop =>
    unfold MarketManager.act
    simp only
    split_ifs
    · exact h.stop
    · exact h

end MarketManager

/-- What holds of the manager at every point. -/
structure MarketSound (s : MarketManager) : Prop where
  twoAccounts : ∀ x y, s.active.accountOf s.lives = some x → s.reserve.accountOf s.lives = some y →
    x.id ≠ y.id
  twoLive : ((Finset.range s.lives.length).filter
    (fun i => s.lives[i]?.map MarketLive.stopped = some false)).card ≤ 2
  leftOver : ∀ (i : ℕ) (l : MarketLive), s.lives[i]? = some l → s.roleOf i = none →
    l.stopped = true ∧ l.detached = true
  fromActive : ∀ tick, .push tick ∈ s.feed → tick.active = some tick.live
  holes : ∀ newer tick between older rest,
    s.feed = newer ++ .push tick :: (between ++ .push older :: rest) → older.source ≠ tick.source →
      .drop ∈ between

namespace MarketManager

theorem sourcesCut_append {newer rest : List FeedEntry} (h : SourcesCut (newer ++ rest)) :
    SourcesCut rest := by
  induction newer with
  | nil => exact h
  | cons entry newer ih =>
    cases entry with
    | drop => exact ih h
    | push tick => exact ih h.2

theorem mem_sinceDrop {between : List FeedEntry} (h : .drop ∉ between) (older : FeedTick)
    (rest : List FeedEntry) : .push older ∈ sinceDrop (between ++ .push older :: rest) := by
  induction between with
  | nil => exact List.mem_cons_self
  | cons entry between ih =>
    rw [List.mem_cons, not_or] at h
    cases entry with
    | drop => exact absurd rfl h.1
    | push tick => exact List.mem_cons_of_mem _ (ih h.2)

theorem Inv.twoLive {s : MarketManager} (h : Inv s) : ((Finset.range s.lives.length).filter
    (fun i => s.lives[i]?.map MarketLive.stopped = some false)).card ≤ 2 := by
  have hslot : ∀ slot : MarketSlot, ∃ j, ∀ i, slot = .running i → i = j := by
    intro slot
    cases slot with
    | running j =>
      refine ⟨j, fun i hi => ?_⟩
      injection hi with hi
      exact hi.symm
    | empty => exact ⟨0, fun i hi => by cases hi⟩
    | starting job => exact ⟨0, fun i hi => by cases hi⟩
  obtain ⟨x, hx⟩ := hslot s.active
  obtain ⟨y, hy⟩ := hslot s.reserve
  have hsubset : (Finset.range s.lives.length).filter
      (fun i => s.lives[i]?.map MarketLive.stopped = some false) ⊆ {x, y} := by
    intro i hi
    obtain ⟨l, hl, hlive⟩ := Option.map_eq_some_iff.mp (Finset.mem_filter.mp hi).2
    rw [Finset.mem_insert, Finset.mem_singleton]
    by_contra hneither
    rw [not_or] at hneither
    have hgone := (h.slots.gone i l hl (fun hact => hneither.1 (hx i hact))
      (fun hres => hneither.2 (hy i hres))).2
    rw [hlive] at hgone
    cases hgone
  exact (Finset.card_le_card hsubset).trans Finset.card_le_two

theorem Inv.sound {s : MarketManager} (h : Inv s) : MarketSound s where
  twoAccounts := h.slots.distinct
  twoLive := h.twoLive
  leftOver i l hl hrole := by
    obtain ⟨hactive, hreserve⟩ := roleOf_none hrole
    obtain ⟨hdetached, hstopped⟩ := h.slots.gone i l hl hactive hreserve
    exact ⟨hstopped, hdetached⟩
  fromActive := h.pushed
  holes newer tick between older rest hfeed hsource := by
    have hcut := h.cut
    rw [hfeed] at hcut
    have hlast := (sourcesCut_append hcut).1
    by_contra hnot
    exact hsource (hlast older (mem_sinceDrop hnot older rest))

end MarketManager

/-- **The market data manager**, in any run. -/
theorem market_data_manager (config : MarketDataConfig) (hashToken : String → String)
    (acts : List MarketManager.Act) :
    MarketSound (run (MarketManager.act config hashToken) MarketManager.start acts) :=
  (run_induction MarketManager.Inv.start (fun _ e h => h.act config hashToken e) acts).sound

end Binarius
