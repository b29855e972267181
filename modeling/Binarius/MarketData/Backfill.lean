import Mathlib.Tactic
import Binarius.Lib.Runs
import Binarius.Lib.History
import Binarius.Shared.Catalog
import Binarius.MarketData.CandleRing

/-!
# MarketData.Backfill — the REST backfill of the candle ring (apps/backend/src/market-data: backfill.ts,
source.ts)

SIGNAL_SCAN_INTERVALS is one interval, so an element is a pair.  The order of the queue, the catalog,
the spare tokens and the answers come with the run.

* `CandleBackfill.isDue`, `scan`, `dispatch`, `launch`, `answered`: the attempt loop.
* `CandleBackfill.Waits`, `Cleared`: **where a request waits, and what may clear it**.
* `CandleBackfill.Inv`: what every callback keeps; `Kept.extend`: what more of the log leaves of a request.
* `backfill_requests`: one attempt a pair, and no request lost but by what may clear it.
-/

namespace Binarius

open Lib

/-- SIGNAL_SCAN_INTERVALS: five seconds. -/
def scanInterval : ScanInterval := { ms := 5000, pos := by decide }

structure BackfillElement where
  /-- the buckets the last GET, or the give-up, left empty -/
  unfilled : List ℤ := []
  lastAttemptAt : Option ℚ := none
  retryAt : Option ℚ := none
  failures : ℕ := 0
  /-- the place of the request that waits on the element -/
  requested : Option ℕ := none
  inflight : Bool := false

/-- A GET: what it asks for, and what it may fill. -/
structure BackfillAttempt where
  id : ℕ
  assetId : ℕ
  builtAt : ℚ
  startTime : ℤ
  limit : ℕ
  /-- the request it serves -/
  served : Option ℕ
  /-- the ring's own bound when the GET was built -/
  ringClosed : ℤ
  deriving DecidableEq

/-- The buckets the GET may fill ended before its boundary and were closed by the ring's rule. -/
def BackfillAttempt.closedAt (a : BackfillAttempt) : ℤ :=
    min (floorTo a.builtAt scanInterval.ms) a.ringClosed

structure CandleBackfillConfig where
  ring : CandleRingOptions
  pendingMax : ℕ
  retryMs : ℚ
  attempts : ℕ
  concurrency : ℕ
  slackMs : ℚ
  candles : ℕ
  /-- the order of the queue -/
  before : ℕ × BackfillElement → ℕ × BackfillElement → Bool

/-- A catalog as it is read: its pairs with their digits. -/
structure CatalogRead where
  fresh : Bool
  pairs : List (BinaryPair × ℤ)

inductive ChartAnswer
  | rows (rows : List Candle)
  | rateLimited
  | refused
  | threw

inductive BackfillEntry
  | requested (assetId : ℕ)
  | launched (a : BackfillAttempt)
  | answered (id : ℕ) (rows : List Candle)
  | limited (id : ℕ)
  | failed (id : ℕ)
  | gaveUp (id : ℕ)
  | aborted (id : ℕ)
  /-- the ring reported no gaps of the pair -/
  | noGaps (assetId : ℕ)
  /-- the pair is not in the fresh catalog with valid digits -/
  | left (assetId : ℕ)
  | stopped

structure CandleBackfill where
  ring : CandleRing := {}
  /-- the request set of the source -/
  requests : List ℕ := []
  /-- the last fresh catalog, its pairs with valid digits only -/
  view : Option (List BinaryPair) := none
  elements : OrderedMap ℕ BackfillElement := .empty
  queue : List ℕ := []
  requestSeq : ℕ := 0
  /-- the GETs in flight -/
  attempts : List BackfillAttempt := []
  launched : ℕ := 0
  stopped : Bool := false
  log : List BackfillEntry := []

namespace CandleBackfill

variable (c : CandleBackfillConfig) (b : CandleBackfill)

/-- `add` of the request set; a full set refuses a new key. -/
def request (assetId : ℕ) : CandleBackfill :=
  if assetId ∈ b.requests then { b with log := b.log ++ [.requested assetId] }
  else if c.pendingMax ≤ b.requests.length then b
  else { b with requests := b.requests ++ [assetId], log := b.log ++ [.requested assetId] }

def setElement (assetId : ℕ) (el : BackfillElement) : CandleBackfill :=
  { b with elements := b.elements.set assetId el }

def elementOf (assetId : ℕ) : CandleBackfill :=
  match b.elements.get? assetId with
  | some _ => b
  | none => b.setElement assetId {}

def window (assetId : ℕ) (now : ℚ) : CandleRing.CandleWindow := b.ring.read c.ring assetId scanInterval now

/-- The unfilled buckets gone from the window are forgotten. -/
def swept (assetId : ℕ) (el : BackfillElement) (now : ℚ) : BackfillElement :=
  { el with unfilled := el.unfilled.filter (fun bucket => decide ((b.window c assetId now).startTime ≤
    bucket)) }

def isDue (assetId : ℕ) (now : ℚ) : Bool × CandleBackfill :=
  match b.elements.get? assetId with
  | none => (false, b)
  | some el =>
    if el.inflight || el.retryAt.any (fun retryAt => decide (now < retryAt)) then (false, b)
    else if el.requested.isSome && (b.window c assetId now).gaps.isEmpty then
      (false, { b.setElement assetId { b.swept c assetId el now with requested := none } with
        log := b.log ++ [.noGaps assetId] })
    else if el.requested.isSome then (true, b.setElement assetId (b.swept c assetId el now))
    else ((b.window c assetId now).gaps.any (fun bucket => !(b.swept c assetId el now).unfilled.contains
      bucket),
      b.setElement assetId (b.swept c assetId el now))

/-- A fresh catalog replaces the view, and the elements of pairs gone from it are dropped, but for one
in flight. -/
def readCatalog (read : Option CatalogRead) : CandleBackfill :=
  match read with
  | none => b
  | some read =>
    if read.fresh then
      let pairs := (read.pairs.filter (fun entry => (assertDigits entry.2).isSome)).map Prod.fst
      let keep := fun e : ℕ × BackfillElement => pairs.any (fun pair => pair.id = e.1) || e.2.inflight
      { b with
        view := some pairs
        elements := b.elements.filter keep
        log := b.log ++ (b.elements.entries.filter (fun e => !keep e)).map (fun e => .left e.1) }
    else b

/-- The first pending request is put on its element, or dropped with its pair. -/
def takeRequest (view : List BinaryPair) (assetId : ℕ) : CandleBackfill :=
  let taken := { b with requests := b.requests.erase assetId }
  if view.any (fun pair => pair.id = assetId) then
    let el := (taken.elements.get? assetId).getD {}
    match el.requested with
    | some _ => taken
    | none =>
      { taken.setElement assetId { el with requested := some b.requestSeq } with
        requestSeq := b.requestSeq + 1 }
  else { taken with log := b.log ++ [.left assetId] }

/-- The elements that are due, each asked once. -/
def dueOf (now : ℚ) : List ℕ → CandleBackfill → List ℕ × CandleBackfill
  | [], b => ([], b)
  | assetId :: rest, b =>
    let (due, b') := b.isDue c assetId now
    let (dues, b'') := dueOf now rest b'
    (if due then assetId :: dues else dues, b'')

/-- The candidates: the eligible pairs while the socket streams, then the elements with a request. -/
def candidates (eligible : List ℕ) : List ℕ :=
  (eligible ++ (b.elements.entries.filter (fun e => e.2.requested.isSome)).map Prod.fst).dedup

def sorted (ids : List ℕ) : List ℕ :=
  ((ids.filterMap (fun id => (b.elements.get? id).map (fun el => (id, el)))).mergeSort c.before).map
    Prod.fst

def scan (read : Option CatalogRead) (streaming : Bool) (now : ℚ) : CandleBackfill :=
  if b.stopped then b
  else
    let b1 := b.readCatalog read
    match b1.view with
    | none => b1
    | some view =>
      let b2 := b1.requests.foldl (fun b assetId => b.takeRequest view assetId) b1
      let eligible :=
        if streaming then
          (view.filter (fun pair => isPairOpen pair now && pairAcceptsDuration pair 5)).map BinaryPair.id
        else []
      let b3 := eligible.foldl elementOf b2
      let (due, b4) := dueOf c now (b3.candidates eligible) b3
      { b4 with queue := b4.sorted c due }

/-- The GET of an element. -/
def attemptOf (assetId : ℕ) (el : BackfillElement) (now : ℚ) : BackfillAttempt where
  id := b.launched
  assetId := assetId
  builtAt := now
  startTime := floorTo now scanInterval.ms - (c.candles - 1) * scanInterval.ms - scanInterval.ms
  limit := c.candles + 1
  served := el.requested
  ringClosed := b.ring.closedUntil c.ring scanInterval now

/-- The GET takes the request with it; one that comes while it is in flight is the next one's. -/
def launch (assetId : ℕ) (now : ℚ) : CandleBackfill :=
  match b.elements.get? assetId with
  | none => b
  | some el =>
    { b.setElement assetId { el with inflight := true, requested := none } with
      attempts := b.attempts ++ [b.attemptOf c assetId el now]
      launched := b.launched + 1
      log := b.log ++ [.launched (b.attemptOf c assetId el now)] }

/-- The loop of a dispatch, with the spare tokens the pacer has. -/
def dispatchLoop (now : ℚ) : ℕ → List ℕ → CandleBackfill → CandleBackfill
  | _, [], b => { b with queue := [] }
  | tokens, assetId :: rest, b =>
    if c.concurrency ≤ b.attempts.length then { b with queue := assetId :: rest }
    else match b.isDue c assetId now with
      | (false, b') => dispatchLoop now tokens rest b'
      | (true, b') =>
        match tokens with
        | 0 => { b' with queue := assetId :: rest }
        | tokens + 1 => dispatchLoop now tokens rest (b'.launch c assetId now)

def dispatch (tokens : ℕ) (now : ℚ) : CandleBackfill :=
  if b.stopped then b
  else if now - floorTo now scanInterval.ms < c.slackMs then b
  else dispatchLoop c now tokens b.queue b

/-! ### The answers -/

/-- The buckets of the window still empty after a GET that could fill those before its bound. -/
def leftUnfilled (a : BackfillAttempt) (now : ℚ) : List ℤ :=
  (b.window c a.assetId now).gaps.filter (fun bucket => decide (bucket < a.closedAt))

/-- A GET out of flight, and its element's next state. -/
def land (a : BackfillAttempt) (e : BackfillEntry) (f : BackfillElement → BackfillElement) :
    CandleBackfill :=
  { b with
    attempts := b.attempts.filter (fun a' => a'.id ≠ a.id)
    elements := b.elements.mapVal (fun assetId el =>
      if assetId = a.assetId then { f el with inflight := false } else el)
    log := b.log ++ [e] }

/-- `requested ??= served`. -/
def keepRequest (served : Option ℕ) (el : BackfillElement) : BackfillElement :=
  { el with requested := el.requested.or served }

def settle (now : ℚ) (el : BackfillElement) : BackfillElement :=
  { el with retryAt := some (now + c.retryMs), lastAttemptAt := some now }

/-- A failed GET: the request stays, up to the give-up. -/
def failed (a : BackfillAttempt) (now : ℚ) : CandleBackfill :=
  let failures := ((b.elements.get? a.assetId).map BackfillElement.failures).getD 0 + 1
  if failures < c.attempts then
    b.land a (.failed a.id) (fun el => keepRequest a.served { settle c now el with failures })
  else
    b.land a (.gaveUp a.id)
      (fun el => { settle c now el with failures := 0, unfilled := b.leftUnfilled c a now })

/-- The rows fill the ring: the first one opens on the window's first tick and is left out. -/
def filled (a : BackfillAttempt) (rows : List Candle) (now : ℚ) : CandleBackfill :=
  let closed := (rows.drop 1).filter (fun row => decide (row.timestamp < a.closedAt))
  { b with ring := b.ring.fill c.ring a.assetId scanInterval closed now }

/-- A GET's answer and the `finally` after it. -/
def answered (id : ℕ) (answer : ChartAnswer) (now : ℚ) : CandleBackfill :=
  match b.attempts.find? (fun a => a.id = id) with
  | none => b
  | some a =>
    if b.stopped then b.land a (.aborted a.id) (fun el => el)
    else match answer with
      | .rateLimited =>
        { b.land a (.limited a.id) (keepRequest a.served) with queue := a.assetId :: b.queue }
      | .refused => b.failed c a now
      | .threw => b.failed c a now
      | .rows rows =>
        (b.filled c a rows now).land a (.answered a.id rows) (fun el =>
          { settle c now el with unfilled := (b.filled c a rows now).leftUnfilled c a now, failures := 0 })

def stop : CandleBackfill := { b with stopped := true, queue := [], log := b.log ++ [.stopped] }

end CandleBackfill

inductive BackfillAct
  | push (assetId : ℕ) (digits : ℤ) (tick : Tick) (receivedAtMs : ℚ)
  | drop
  | request (assetId : ℕ)
  | scan (read : Option CatalogRead) (streaming : Bool) (now : ℚ)
  | dispatch (tokens : ℕ) (now : ℚ)
  | answered (id : ℕ) (answer : ChartAnswer) (now : ℚ)
  | stop

def CandleBackfill.act (c : CandleBackfillConfig) (b : CandleBackfill) : BackfillAct → CandleBackfill
  | .push assetId digits tick receivedAtMs =>
    { b with ring := b.ring.push c.ring assetId digits tick receivedAtMs }
  | .drop => { b with ring := b.ring.onDrop }
  | .request assetId => b.request c assetId
  | .scan read streaming now => b.scan c read streaming now
  | .dispatch tokens now => b.dispatch c tokens now
  | .answered id answer now => b.answered c id answer now
  | .stop => b.stop

/-! ## The requests -/

/-- **What may clear a request**: an attempt launched after it that answered or gave up, a ring without
gaps of the pair, a catalog without the pair, the stop. -/
def Cleared (assetId : ℕ) (after : List BackfillEntry) : Prop :=
  (∃ a, .launched a ∈ after ∧ a.assetId = assetId ∧ ((∃ rows, .answered a.id rows ∈ after) ∨
    .gaveUp a.id ∈ after)) ∨
    .noGaps assetId ∈ after ∨ .left assetId ∈ after ∨ .stopped ∈ after

/-- **Where a request waits**: in the set, on its element, or with an attempt launched after it. -/
def CandleBackfill.Waits (b : CandleBackfill) (assetId : ℕ) (after : List BackfillEntry) : Prop :=
  assetId ∈ b.requests ∨ (∃ el, b.elements.get? assetId = some el ∧ el.requested.isSome = true) ∨
    ∃ a ∈ b.attempts, a.assetId = assetId ∧ a.served.isSome = true ∧ .launched a ∈ after

def CandleBackfill.Kept (b : CandleBackfill) : Prop :=
  ∀ before assetId after, b.log = before ++ .requested assetId :: after → .stopped ∉ before →
    Cleared assetId after ∨ b.Waits assetId after

/-- What every callback keeps. -/
structure CandleBackfill.Inv (b : CandleBackfill) : Prop where
  busy : ∀ a ∈ b.attempts, ∃ el, b.elements.get? a.assetId = some el ∧ el.inflight = true
  one : (b.attempts.map BackfillAttempt.assetId).Nodup
  ids : (b.attempts.map BackfillAttempt.id).Nodup
  fresh : ∀ a ∈ b.attempts, a.id < b.launched
  stopped : b.stopped = true ↔ .stopped ∈ b.log
  kept : b.Kept

section Requests

variable {c : CandleBackfillConfig} {b b' : CandleBackfill} {es after : List BackfillEntry} {assetId : ℕ}

theorem Cleared.append (h : Cleared assetId after) : Cleared assetId (after ++ es) := by
  rcases h with ⟨a, hlaunched, hpair, hended⟩ | hgaps | hleft | hstop
  · refine .inl ⟨a, List.mem_append_left _ hlaunched, hpair, ?_⟩
    rcases hended with ⟨rows, hrows⟩ | hgave
    · exact .inl ⟨rows, List.mem_append_left _ hrows⟩
    · exact .inr (List.mem_append_left _ hgave)
  · exact .inr (.inl (List.mem_append_left _ hgaps))
  · exact .inr (.inr (.inl (List.mem_append_left _ hleft)))
  · exact .inr (.inr (.inr (List.mem_append_left _ hstop)))

/-- **More of the log**: what waits goes on waiting, or is cleared by it. -/
theorem CandleBackfill.Kept.extend (h : b.Kept) (hstop : b.stopped = true ↔ .stopped ∈ b.log)
    (hlog : b'.log = b.log ++ es)
    (hwait : ∀ assetId after, (b.stopped = true → .stopped ∈ after) → b.Waits assetId after →
      Cleared assetId (after ++ es) ∨ b'.Waits assetId (after ++ es))
    (hnew : ∀ before assetId after, es = before ++ .requested assetId :: after → b'.Waits assetId after) :
    b'.Kept := by
  intro before assetId after heq hbefore
  rw [hlog] at heq
  rcases append_eq_split heq with ⟨after', rfl, hsplit⟩ | ⟨before', rfl, hes⟩
  · rcases h before assetId after' hsplit hbefore with hcleared | hwaits
    · exact .inl hcleared.append
    · refine hwait assetId after' (fun hs => ?_) hwaits
      have hmem := hstop.mp hs
      rw [hsplit] at hmem
      rcases List.mem_append.mp hmem with hb | hafter
      · exact absurd hb hbefore
      · rcases List.mem_cons.mp hafter with hrequested | hafter
        · cases hrequested
        · exact hafter
  · exact .inr (hnew before' assetId after hes)

/-- Without a new request nothing new waits. -/
theorem no_request (hes : ∀ id, .requested id ∉ es) (before : List BackfillEntry) (assetId : ℕ)
    (after : List BackfillEntry) (heq : es = before ++ .requested assetId :: after) :
      b'.Waits assetId after := by
  refine absurd ?_ (hes assetId)
  rw [heq]
  exact List.mem_append_right _ List.mem_cons_self

/-- **An element written**: it stays in flight, and its request stays, or leaves because there are no
gaps. -/
theorem CandleBackfill.Inv.written (h : b.Inv) {el' : BackfillElement}
    (hrequests : b'.requests = b.requests)
    (hattempts : b'.attempts = b.attempts) (hlaunched : b'.launched = b.launched)
    (hstopped : b'.stopped = b.stopped) (helements : b'.elements = b.elements.set assetId el')
    (hlog : b'.log = b.log ++ es) (hes : ∀ e ∈ es, e = .noGaps assetId)
    (hflight : ∀ el, b.elements.get? assetId = some el → el.inflight = true → el'.inflight = true)
    (hrequest : ∀ el, b.elements.get? assetId = some el → el.requested.isSome = true →
      el'.requested.isSome = true ∨ .noGaps assetId ∈ es) : b'.Inv := by
  refine ⟨?_, hattempts ▸ h.one, hattempts ▸ h.ids, ?_, ?_, ?_⟩
  · rw [hattempts, helements]
    intro a ha
    obtain ⟨el, hel, hin⟩ := h.busy a ha
    rw [OrderedMap.get?_set]
    split_ifs with hk
    · rw [← hk] at hel
      exact ⟨el', rfl, hflight el hel hin⟩
    · exact ⟨el, hel, hin⟩
  · rw [hattempts, hlaunched]
    exact h.fresh
  · rw [hstopped, hlog, h.stopped, List.mem_append]
    refine ⟨.inl, fun hmem => hmem.resolve_right (fun hnew => ?_)⟩
    cases hes _ hnew
  · refine h.kept.extend h.stopped hlog ?_ (no_request (fun id hmem => ?_))
    · intro id after _ hwaits
      rcases hwaits with hset | ⟨el, hel, hreq⟩ | ⟨a, ha, hpair, hserved, hl⟩
      · exact .inr (.inl (hrequests ▸ hset))
      · by_cases hk : assetId = id
        · subst hk
          rcases hrequest el hel hreq with hkept | hgaps
          · refine .inr (.inr (.inl ⟨el', ?_, hkept⟩))
            rw [helements, OrderedMap.get?_set, if_pos rfl]
          · exact .inl (.inr (.inl (List.mem_append_right _ hgaps)))
        · refine .inr (.inr (.inl ⟨el, ?_, hreq⟩))
          rw [helements, OrderedMap.get?_set, if_neg hk]
          exact hel
      · exact .inr (.inr (.inr ⟨a, hattempts ▸ ha, hpair, hserved, List.mem_append_left _ hl⟩))
    · cases hes _ hmem

theorem CandleBackfill.Inv.elementOf (h : b.Inv) (assetId : ℕ) : (b.elementOf assetId).Inv := by
  unfold CandleBackfill.elementOf
  cases hel : b.elements.get? assetId with
  | some el => exact h
  | none =>
    refine h.written rfl rfl rfl rfl rfl (List.append_nil _).symm ?_ ?_ ?_
    · exact fun e he => absurd he List.not_mem_nil
    · intro el hsome
      rw [hel] at hsome
      cases hsome
    · intro el hsome
      rw [hel] at hsome
      cases hsome

/-- **An element asked whether it is due.** -/
theorem CandleBackfill.Inv.isDue (h : b.Inv) (assetId : ℕ) (now : ℚ) : (b.isDue c assetId now).2.Inv := by
  unfold CandleBackfill.isDue
  cases hel : b.elements.get? assetId with
  | none => exact h
  | some el =>
    simp only
    have hswept : (b.setElement assetId (b.swept c assetId el now)).Inv := by
      refine h.written rfl rfl rfl rfl rfl (List.append_nil _).symm ?_ ?_ ?_
      · exact fun e he => absurd he List.not_mem_nil
      · intro el' hsome hin
        cases hel.symm.trans hsome
        exact hin
      · intro el' hsome hreq
        cases hel.symm.trans hsome
        exact .inl hreq
    split_ifs with hheld hnone hreq
    · exact h
    · refine @CandleBackfill.Inv.written b _ [.noGaps assetId] assetId h _ rfl rfl rfl rfl rfl rfl ?_ ?_ ?_
      · exact fun e he => List.mem_singleton.mp he
      · intro el' hsome hin
        cases hel.symm.trans hsome
        exact hin
      · exact fun _ _ _ => .inr List.mem_cons_self
    · exact hswept
    · exact hswept

/-- An element that is due is not in flight. -/
theorem isDue_free {now : ℚ} (h : (b.isDue c assetId now).1 = true) :
    ∃ el, (b.isDue c assetId now).2.elements.get? assetId = some el ∧ el.inflight = false := by
  unfold CandleBackfill.isDue at h ⊢
  cases hel : b.elements.get? assetId with
  | none =>
    rw [hel] at h
    exact absurd h Bool.false_ne_true
  | some el =>
    rw [hel] at h
    simp only at h ⊢
    have hget : ∀ el', (b.setElement assetId el').elements.get? assetId = some el' := by
      intro el'
      show (b.elements.set assetId el').get? assetId = some el'
      rw [OrderedMap.get?_set, if_pos rfl]
    split_ifs at h ⊢ with hheld hnone hreq
    · have hfree : el.inflight = false := by
        have hboth := Bool.or_eq_false_iff.mp (Bool.eq_false_of_not_eq_true hheld)
        exact hboth.1
      exact ⟨b.swept c assetId el now, hget _, hfree⟩
    · have hfree : el.inflight = false := by
        have hboth := Bool.or_eq_false_iff.mp (Bool.eq_false_of_not_eq_true hheld)
        exact hboth.1
      exact ⟨b.swept c assetId el now, hget _, hfree⟩

/-- A request put on its element, or dropped with its pair. -/
theorem CandleBackfill.Inv.takeRequest (h : b.Inv) (view : List BinaryPair) (assetId : ℕ) :
    (b.takeRequest view assetId).Inv := by
  unfold CandleBackfill.takeRequest
  simp only
  split_ifs with hview
  · cases hreq : ((b.elements.get? assetId).getD {}).requested with
    | some place =>
      refine ⟨h.busy, h.one, h.ids, h.fresh, h.stopped, ?_⟩
      refine @CandleBackfill.Kept.extend b _ [] h.kept h.stopped (List.append_nil _).symm ?_
        (no_request (fun id hmem => absurd hmem List.not_mem_nil))
      intro id after _ hwaits
      rw [List.append_nil]
      rcases hwaits with hset | hel | hattempt
      · by_cases hk : id = assetId
        · subst hk
          refine .inr (.inr (.inl ?_))
          cases hel : b.elements.get? id with
          | none =>
            rw [hel] at hreq
            cases hreq
          | some el =>
            rw [hel] at hreq
            exact ⟨el, rfl, Option.isSome_iff_exists.mpr ⟨place, hreq⟩⟩
        · exact .inr (.inl ((List.mem_erase_of_ne hk).mpr hset))
      · exact .inr (.inr (.inl hel))
      · exact .inr (.inr (.inr hattempt))
    | none =>
      refine ⟨?_, h.one, h.ids, h.fresh, h.stopped, ?_⟩
      · intro a ha
        obtain ⟨el, hel, hin⟩ := h.busy a ha
        show ∃ el, (b.elements.set assetId _).get? a.assetId = some el ∧ _
        rw [OrderedMap.get?_set]
        split_ifs with hk
        · refine ⟨_, rfl, ?_⟩
          rw [hk, hel]
          exact hin
        · exact ⟨el, hel, hin⟩
      · refine @CandleBackfill.Kept.extend b _ [] h.kept h.stopped (List.append_nil _).symm ?_
          (no_request (fun id hmem => absurd hmem List.not_mem_nil))
        intro id after _ hwaits
        rw [List.append_nil]
        by_cases hk : assetId = id
        · subst hk
          refine .inr (.inr (.inl
            ⟨{ (b.elements.get? assetId).getD {} with requested := some b.requestSeq }, ?_, rfl⟩))
          show (b.elements.set assetId _).get? assetId = some _
          rw [OrderedMap.get?_set, if_pos rfl]
        · rcases hwaits with hset | ⟨el, hel, hsome⟩ | hattempt
          · exact .inr (.inl ((List.mem_erase_of_ne (fun heq => hk heq.symm)).mpr hset))
          · refine .inr (.inr (.inl ⟨el, ?_, hsome⟩))
            show (b.elements.set assetId _).get? id = some el
            rw [OrderedMap.get?_set, if_neg hk]
            exact hel
          · exact .inr (.inr (.inr hattempt))
  · refine ⟨h.busy, h.one, h.ids, h.fresh, ?_, ?_⟩
    · show b.stopped = true ↔ .stopped ∈ b.log ++ [.left assetId]
      rw [h.stopped]
      simp
    · refine @CandleBackfill.Kept.extend b _ [.left assetId] h.kept h.stopped rfl ?_
        (no_request (fun id hmem => ?_))
      · intro id after _ hwaits
        rcases hwaits with hset | hel | ⟨a, ha, hpair, hserved, hl⟩
        · by_cases hk : id = assetId
          · rw [hk]
            exact .inl (.inr (.inr (.inl (List.mem_append_right _ List.mem_cons_self))))
          · exact .inr (.inl ((List.mem_erase_of_ne hk).mpr hset))
        · exact .inr (.inr (.inl hel))
        · exact .inr (.inr (.inr ⟨a, ha, hpair, hserved, List.mem_append_left _ hl⟩))
      · cases List.mem_singleton.mp hmem

/-- **A catalog read**: a pair gone from a fresh one takes its request with it. -/
theorem CandleBackfill.Inv.readCatalog (h : b.Inv) (read : Option CatalogRead) :
    (b.readCatalog read).Inv := by
  unfold CandleBackfill.readCatalog
  cases read with
  | none => exact h
  | some read =>
    simp only
    split_ifs
    · refine ⟨?_, h.one, h.ids, h.fresh, ?_, ?_⟩
      · intro a ha
        obtain ⟨el, hel, hin⟩ := h.busy a ha
        refine ⟨el, OrderedMap.get?_filter_eq_some.mpr ⟨hel, ?_⟩, hin⟩
        rw [Bool.or_eq_true]
        exact .inr hin
      · show b.stopped = true ↔ .stopped ∈ b.log ++ _
        rw [h.stopped, List.mem_append]
        refine ⟨.inl, fun hmem => hmem.resolve_right (fun hnew => ?_)⟩
        obtain ⟨e, -, he⟩ := List.mem_map.mp hnew
        cases he
      · refine h.kept.extend h.stopped rfl ?_ (no_request (fun id hmem => ?_))
        · intro id after _ hwaits
          rcases hwaits with hset | ⟨el, hel, hsome⟩ | ⟨a, ha, hpair, hserved, hl⟩
          · exact .inr (.inl hset)
          · by_cases hkeep : (((read.pairs.filter (fun entry => (assertDigits entry.2).isSome)).map Prod.fst).any
                (fun pair => pair.id = id) || el.inflight) = true
            · exact .inr (.inr (.inl ⟨el, OrderedMap.get?_filter_eq_some.mpr ⟨hel, hkeep⟩, hsome⟩))
            · refine .inl (.inr (.inr (.inl (List.mem_append_right _ ?_))))
              refine List.mem_map.mpr ⟨(id, el), List.mem_filter.mpr ⟨OrderedMap.get?_eq_some.mp hel,
                ?_⟩, rfl⟩
              rw [Bool.eq_false_of_not_eq_true hkeep]
              rfl
          · exact .inr (.inr (.inr ⟨a, ha, hpair, hserved, List.mem_append_left _ hl⟩))
        · obtain ⟨e, -, he⟩ := List.mem_map.mp hmem
          cases he
    · exact h

theorem CandleBackfill.Inv.dueOf (now : ℚ) (ids : List ℕ) : ∀ {b : CandleBackfill}, b.Inv →
    (CandleBackfill.dueOf c now ids b).2.Inv := by
  induction ids with
  | nil => exact fun h => h
  | cons assetId rest ih => exact fun h => ih (h.isDue assetId now)

theorem CandleBackfill.Inv.queued (h : b.Inv) (queue : List ℕ) : ({ b with queue } : CandleBackfill).Inv :=
  ⟨h.busy, h.one, h.ids, h.fresh, h.stopped, h.kept⟩

theorem CandleBackfill.Inv.ringed (h : b.Inv) (ring : CandleRing) :
    ({ b with ring } : CandleBackfill).Inv :=
  ⟨h.busy, h.one, h.ids, h.fresh, h.stopped, h.kept⟩

/-- What one step of a fold keeps, the fold keeps. -/
theorem CandleBackfill.Inv.folded {step : CandleBackfill → ℕ → CandleBackfill} (h : b.Inv)
    (hstep : ∀ {b' : CandleBackfill}, b'.Inv → ∀ assetId, (step b' assetId).Inv) (ids : List ℕ) :
    (ids.foldl step b).Inv := run_induction h (fun _ assetId hb => hstep hb assetId) ids

theorem CandleBackfill.Inv.scan (h : b.Inv) (read : Option CatalogRead) (streaming : Bool) (now : ℚ) :
    (b.scan c read streaming now).Inv := by
  unfold CandleBackfill.scan
  by_cases hstopped : b.stopped = true
  · rw [if_pos hstopped]
    exact h
  · rw [if_neg hstopped]
    have hread := h.readCatalog read
    simp only
    cases (b.readCatalog read).view with
    | none => exact hread
    | some view =>
      have htaken := @CandleBackfill.Inv.folded _ (fun b assetId => b.takeRequest view assetId) hread
        (fun hb assetId => hb.takeRequest view assetId) (b.readCatalog read).requests
      have hoffered := @CandleBackfill.Inv.folded _ CandleBackfill.elementOf htaken
        (fun hb assetId => hb.elementOf assetId)
      exact (CandleBackfill.Inv.dueOf now _ (hoffered _)).queued _

/-- **A launch** takes the request with it. -/
theorem CandleBackfill.Inv.launch (h : b.Inv) {el : BackfillElement}
    (hel : b.elements.get? assetId = some el)
    (hfree : el.inflight = false) (now : ℚ) : (b.launch c assetId now).Inv := by
  have hnot : assetId ∉ b.attempts.map BackfillAttempt.assetId := by
    intro hmem
    obtain ⟨a, ha, rfl⟩ := List.mem_map.mp hmem
    obtain ⟨el', hel', hin⟩ := h.busy a ha
    cases hel.symm.trans hel'
    rw [hfree] at hin
    cases hin
  have hset : ∀ id, (b.elements.set assetId { el with inflight := true, requested := none }).get? id =
      if assetId = id then some { el with inflight := true, requested := none } else b.elements.get? id :=
    fun id => OrderedMap.get?_set _ _ _ _
  unfold CandleBackfill.launch
  rw [hel]
  refine ⟨?_, ?_, ?_, ?_, ?_, ?_⟩
  · intro a ha
    show ∃ el', (b.elements.set assetId { el with inflight := true, requested := none }).get?
      a.assetId = some el' ∧ _
    rw [hset]
    rcases List.mem_append.mp ha with hold | hnew
    · split_ifs with hk
      · exact ⟨_, rfl, rfl⟩
      · exact h.busy a hold
    · rw [List.mem_singleton.mp hnew, if_pos (show assetId = (b.attemptOf c assetId el now).assetId from
        rfl)]
      exact ⟨_, rfl, rfl⟩
  · show ((b.attempts ++ [b.attemptOf c assetId el now]).map BackfillAttempt.assetId).Nodup
    rw [List.map_append, List.nodup_append]
    refine ⟨h.one, List.nodup_singleton _, fun id hid id' hid' heq => hnot ?_⟩
    rw [List.map_singleton, List.mem_singleton] at hid'
    have hsame : id = assetId := heq.trans hid'
    exact hsame ▸ hid
  · show ((b.attempts ++ [b.attemptOf c assetId el now]).map BackfillAttempt.id).Nodup
    rw [List.map_append, List.nodup_append]
    refine ⟨h.ids, List.nodup_singleton _, fun id hid id' hid' heq => ?_⟩
    obtain ⟨a, ha, rfl⟩ := List.mem_map.mp hid
    rw [List.map_singleton, List.mem_singleton] at hid'
    have hlt := h.fresh a ha
    have hid : a.id = b.launched := heq.trans hid'
    omega
  · intro a ha
    show a.id < b.launched + 1
    rcases List.mem_append.mp ha with hold | hnew
    · exact Nat.lt_succ_of_lt (h.fresh a hold)
    · rw [List.mem_singleton.mp hnew]
      exact Nat.lt_succ_self _
  · show b.stopped = true ↔ .stopped ∈ b.log ++ [.launched _]
    rw [h.stopped]
    simp
  · refine @CandleBackfill.Kept.extend b _ [.launched (b.attemptOf c assetId el now)] h.kept h.stopped
      rfl ?_
      (no_request (fun id hmem => ?_))
    · intro id after _ hwaits
      rcases hwaits with hset' | ⟨el', hel', hreq⟩ | ⟨a, ha, hpair, hserved, hl⟩
      · exact .inr (.inl hset')
      · by_cases hk : assetId = id
        · subst hk
          cases hel.symm.trans hel'
          exact .inr (.inr (.inr ⟨b.attemptOf c assetId el now, List.mem_append_right _ List.mem_cons_self, rfl, hreq,
            List.mem_append_right _ List.mem_cons_self⟩))
        · refine .inr (.inr (.inl ⟨el', ?_, hreq⟩))
          exact (hset id).trans ((if_neg hk).trans hel')
      · exact .inr (.inr (.inr ⟨a, List.mem_append_left _ ha, hpair, hserved, List.mem_append_left _ hl⟩))
    · cases List.mem_singleton.mp hmem

/-- **The dispatch** launches what is due, and no pair twice. -/
theorem CandleBackfill.Inv.dispatchLoop (now : ℚ) (queue : List ℕ) :
    ∀ {b : CandleBackfill} (tokens : ℕ), b.Inv →
    (CandleBackfill.dispatchLoop c now tokens queue b).Inv := by
  induction queue with
  | nil => exact fun _ h => h.queued []
  | cons assetId rest ih =>
    intro b tokens h
    have hdue := h.isDue (c := c) assetId now
    have hfree := @isDue_free c b assetId now
    unfold CandleBackfill.dispatchLoop
    split_ifs
    · exact h.queued _
    · generalize b.isDue c assetId now = found at hdue hfree
      obtain ⟨due, b'⟩ := found
      cases due with
      | false => exact ih tokens hdue
      | true =>
        obtain ⟨el, hel, hin⟩ := hfree rfl
        cases tokens with
        | zero => exact hdue.queued _
        | succ tokens => exact ih tokens (hdue.launch hel hin now)

/-- **A GET out of flight**: its request is on its element again, or cleared, or the stop came. -/
theorem CandleBackfill.Inv.land (h : b.Inv) {a : BackfillAttempt} (ha : a ∈ b.attempts) {e : BackfillEntry}
    {f : BackfillElement → BackfillElement} (hf : ∀ el, el.requested.isSome = true →
      (f el).requested.isSome = true)
    (hrequested : ∀ id, e ≠ .requested id) (hstop : e ≠ .stopped)
    (hserved : a.served.isSome = true → (∀ el, (f el).requested.isSome = true) ∨
      (∃ rows, e = .answered a.id rows) ∨
      e = .gaveUp a.id ∨ b.stopped = true) : (b.land a e f).Inv := by
  have hget : ∀ id, (b.land a e f).elements.get? id = (b.elements.get? id).map (fun el =>
      if id = a.assetId then { f el with inflight := false } else el) := fun id =>
        OrderedMap.get?_mapVal _ _ _
  have hsub : (b.land a e f).attempts.Sublist b.attempts := List.filter_sublist
  refine ⟨?_, h.one.sublist (hsub.map _), h.ids.sublist (hsub.map _), fun a' ha' =>
    h.fresh a' (hsub.subset ha'), ?_, ?_⟩
  · intro a' ha'
    have hmem := List.mem_filter.mp ha'
    have hne : a'.id ≠ a.id := by simpa using hmem.2
    obtain ⟨el, hel, hin⟩ := h.busy a' hmem.1
    have hother : a'.assetId ≠ a.assetId := by
      intro heq
      have hsame := List.inj_on_of_nodup_map h.one hmem.1 ha heq
      exact hne (congrArg _ hsame)
    refine ⟨el, ?_, hin⟩
    rw [hget, hel]
    show some (if _ then _ else _) = _
    rw [if_neg hother]
  · show b.stopped = true ↔ .stopped ∈ b.log ++ [e]
    rw [h.stopped, List.mem_append]
    refine ⟨.inl, fun hmem => hmem.resolve_right (fun hnew => ?_)⟩
    exact hstop (List.mem_singleton.mp hnew).symm
  · refine @CandleBackfill.Kept.extend b _ [e] h.kept h.stopped rfl ?_ (no_request (fun id hmem => ?_))
    · intro id after hafter hwaits
      rcases hwaits with hset | ⟨el, hel, hreq⟩ | ⟨a', ha', rfl, hserved', hl⟩
      · exact .inr (.inl hset)
      · refine .inr (.inr (.inl ⟨if id = a.assetId then { f el with inflight := false } else el, ?_, ?_⟩))
        · rw [hget, hel]
          rfl
        · split_ifs
          · exact hf el hreq
          · exact hreq
      · by_cases hid : a'.id = a.id
        · have hsame := List.inj_on_of_nodup_map h.ids ha' ha hid
          subst hsame
          rcases hserved hserved' with hkept | ⟨rows, rfl⟩ | rfl | hstopped
          · obtain ⟨el, hel, -⟩ := h.busy a' ha'
            refine .inr (.inr (.inl ⟨{ f el with inflight := false }, ?_, hkept el⟩))
            rw [hget, hel]
            show some (if _ then _ else _) = _
            rw [if_pos rfl]
          · exact .inl (.inl ⟨a', List.mem_append_left _ hl, rfl,
              .inl ⟨rows, List.mem_append_right _ List.mem_cons_self⟩⟩)
          · exact .inl (.inl ⟨a', List.mem_append_left _ hl, rfl,
              .inr (List.mem_append_right _ List.mem_cons_self)⟩)
          · exact .inl (.inr (.inr (.inr (List.mem_append_left _ (hafter hstopped)))))
        · refine .inr (.inr (.inr ⟨a', List.mem_filter.mpr ⟨ha', by simpa using hid⟩, rfl, hserved',
            List.mem_append_left _ hl⟩))
    · exact hrequested id (List.mem_singleton.mp hmem).symm

theorem keepRequest_isSome {served : Option ℕ} (hserved : served.isSome = true) (el : BackfillElement) :
    (CandleBackfill.keepRequest served el).requested.isSome = true := by
  unfold CandleBackfill.keepRequest
  rw [Option.isSome_or, hserved, Bool.or_true]

theorem keepRequest_keeps (served : Option ℕ) {el : BackfillElement} (h : el.requested.isSome = true) :
    (CandleBackfill.keepRequest served el).requested.isSome = true := by
  unfold CandleBackfill.keepRequest
  rw [Option.isSome_or, h, Bool.true_or]

theorem CandleBackfill.Inv.failed (h : b.Inv) {a : BackfillAttempt} (ha : a ∈ b.attempts) (now : ℚ) :
    (b.failed c a now).Inv := by
  unfold CandleBackfill.failed
  simp only
  split_ifs
  · refine h.land ha ?_ ?_ ?_ (fun hserved => .inl (fun el => keepRequest_isSome hserved _))
    · exact fun el hreq => keepRequest_keeps _ hreq
    · intro id heq
      cases heq
    · intro heq
      cases heq
  · refine h.land ha (fun el hreq => hreq) ?_ ?_ (fun _ => .inr (.inr (.inl rfl)))
    · intro id heq
      cases heq
    · intro heq
      cases heq

/-- **An answer.** -/
theorem CandleBackfill.Inv.answered (h : b.Inv) (id : ℕ) (answer : ChartAnswer) (now : ℚ) :
    (b.answered c id answer now).Inv := by
  unfold CandleBackfill.answered
  cases hfind : b.attempts.find? (fun a => a.id = id) with
  | none => exact h
  | some a =>
    have ha := List.mem_of_find?_eq_some hfind
    simp only
    split_ifs with hstopped
    · refine h.land ha (fun el hreq => hreq) ?_ ?_ (fun _ => .inr (.inr (.inr hstopped)))
      · intro id heq
        cases heq
      · intro heq
        cases heq
    · cases answer with
      | rateLimited =>
        refine CandleBackfill.Inv.queued (h.land ha (fun el hreq => keepRequest_keeps _ hreq) ?_ ?_
          (fun hserved => .inl (fun el => keepRequest_isSome hserved el))) _
        · intro id heq
          cases heq
        · intro heq
          cases heq
      | refused => exact h.failed ha now
      | threw => exact h.failed ha now
      | rows rows =>
        have hfilled : (b.filled c a rows now).Inv := h.ringed _
        refine hfilled.land ha (fun el hreq => hreq) ?_ ?_ (fun _ => .inr (.inl ⟨rows, rfl⟩))
        · intro id heq
          cases heq
        · intro heq
          cases heq

/-- A request joins the set. -/
theorem CandleBackfill.Inv.request (h : b.Inv) (assetId : ℕ) : (b.request c assetId).Inv := by
  have hadded : ∀ requests : List ℕ, (∀ id ∈ b.requests, id ∈ requests) → assetId ∈ requests →
      ({ b with requests, log := b.log ++ [.requested assetId] } : CandleBackfill).Inv := by
    intro requests hkept hmem
    refine ⟨h.busy, h.one, h.ids, h.fresh, ?_, ?_⟩
    · show b.stopped = true ↔ .stopped ∈ b.log ++ [.requested assetId]
      rw [h.stopped]
      simp
    · refine @CandleBackfill.Kept.extend b _ [.requested assetId] h.kept h.stopped rfl ?_ ?_
      · intro id after _ hwaits
        rcases hwaits with hset | hel | ⟨a, ha, hpair, hserved, hl⟩
        · exact .inr (.inl (hkept id hset))
        · exact .inr (.inr (.inl hel))
        · exact .inr (.inr (.inr ⟨a, ha, hpair, hserved, List.mem_append_left _ hl⟩))
      · intro before id after heq
        rcases List.append_eq_singleton_iff.mp heq.symm with ⟨-, hcons⟩ | ⟨-, hcons⟩
        · cases (List.cons.inj hcons).1
          exact .inl hmem
        · cases hcons
  unfold CandleBackfill.request
  split_ifs with hin hfull
  · exact hadded b.requests (fun _ hid => hid) hin
  · exact h
  · exact hadded _ (fun _ hid => List.mem_append_left _ hid) (List.mem_append_right _ List.mem_cons_self)

theorem CandleBackfill.Inv.stop (h : b.Inv) : b.stop.Inv := by
  refine ⟨h.busy, h.one, h.ids, h.fresh, ?_, ?_⟩
  · exact ⟨fun _ => List.mem_append_right _ List.mem_cons_self, fun _ => rfl⟩
  · refine @CandleBackfill.Kept.extend b _ [.stopped] h.kept h.stopped rfl ?_
      (no_request (fun id hmem => ?_))
    · exact fun id after _ _ => .inl (.inr (.inr (.inr (List.mem_append_right _ List.mem_cons_self))))
    · cases List.mem_singleton.mp hmem

/-- **Every callback.** -/
theorem CandleBackfill.Inv.act (h : b.Inv) (x : BackfillAct) : (b.act c x).Inv := by
  cases x with
  | push assetId digits tick receivedAtMs => exact h.ringed _
  | drop => exact h.ringed _
  | request assetId => exact h.request assetId
  | scan read streaming now => exact h.scan read streaming now
  | dispatch tokens now =>
    show (b.dispatch c tokens now).Inv
    unfold CandleBackfill.dispatch
    split_ifs
    · exact h
    · exact h
    · exact CandleBackfill.Inv.dispatchLoop now b.queue tokens h
  | answered id answer now => exact h.answered id answer now
  | stop => exact h.stop

end Requests

theorem CandleBackfill.Inv.start : ({} : CandleBackfill).Inv := by
  refine ⟨fun a ha => absurd ha List.not_mem_nil, List.nodup_nil, List.nodup_nil,
    fun a ha => absurd ha List.not_mem_nil, ?_, ?_⟩
  · exact ⟨fun h => absurd h Bool.false_ne_true, fun h => absurd h List.not_mem_nil⟩
  · intro before assetId after heq
    exact absurd heq.symm (by simp)

/-- **No request is lost**, in every run: a request made before the stop waits in the set, on its
element or with an attempt launched after it, until one of what may clear it; and a pair has one attempt
at most. -/
theorem backfill_requests (c : CandleBackfillConfig) (as : List BackfillAct) :
    ((run (CandleBackfill.act c) {} as).attempts.map BackfillAttempt.assetId).Nodup ∧
      ∀ before assetId after, (run (CandleBackfill.act c) {} as).log = before ++ .requested assetId ::
        after →
        .stopped ∉ before →
        Cleared assetId after ∨ (run (CandleBackfill.act c) {} as).Waits assetId after := by
  have h := run_induction CandleBackfill.Inv.start (fun b x hb => CandleBackfill.Inv.act (c := c) hb x) as
  exact ⟨h.one, h.kept⟩

def oneBucketConfig : CandleBackfillConfig where
  ring := ⟨1, 0, [scanInterval], Nat.one_pos, le_rfl⟩
  pendingMax := 288
  retryMs := 15000
  attempts := 3
  concurrency := 2
  slackMs := 500
  candles := 1
  before := fun _ _ => true

/-- A request waits, its pair in no catalog yet. -/
theorem backfill_requests_waits : (run (CandleBackfill.act oneBucketConfig) {} [.request 7]).Waits 7
    [] := by
  refine ((backfill_requests oneBucketConfig [.request 7]).2 [] 7 [] rfl List.not_mem_nil).resolve_left ?_
  rintro (⟨a, ha, -⟩ | h | h | h)
  · exact absurd ha List.not_mem_nil
  · exact absurd h List.not_mem_nil
  · exact absurd h List.not_mem_nil
  · exact absurd h List.not_mem_nil

/-- **A fresh catalog without the pair** drops its request: no attempt is launched, and the ring is not
read. -/
theorem catalog_drops_request :
    let b := run (CandleBackfill.act oneBucketConfig) {} [.request 7, .scan (some ⟨true, []⟩) true 5600]
    b.log = [] ++ .requested 7 :: [.left 7] ∧ b.stopped = false ∧ ¬ b.Waits 7 [.left 7] ∧
      (∀ a, BackfillEntry.launched a ∉ [.left 7]) ∧ BackfillEntry.noGaps 7 ∉ [.left 7] := by
  refine ⟨rfl, rfl, ?_, fun a ha => ?_, fun h => ?_⟩
  · rintro (hset | ⟨el, hel, -⟩ | ⟨a, ha, -⟩)
    · exact absurd hset List.not_mem_nil
    · cases hel
    · exact absurd ha List.not_mem_nil
  · cases List.mem_singleton.mp ha
  · cases List.mem_singleton.mp h

end Binarius
