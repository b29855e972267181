import Mathlib.Tactic
import Binarius.Lib.Runs
import Binarius.Lib.BoundedMap
import Binarius.BrokerRest.Rest

/-!
# Signal.SignalCache — the cache of the signal decisions (packages/signal: cache.ts)

The inner feed, the clock readings and the order of the callbacks come with each action.

* `SignalCache.evaluate`, `fromSource`, `answered`, `delivered`: the cache, one callback at a time.
* `SignalCache.HeldOk`: **what is held** ends with its candle, and the entries are few.
* `hold_spec`, `sourceDecision_spec`: what a write leaves under its key.
* `signal_cache`: hits in their candle, one line a decision, which entry replaces which, and the size.
-/

namespace Binarius

open Lib

structure SignalCacheOptions where
  maxTtlMs : ℚ
  maxEntries : ℕ

/-- A decided result: the object, and its entry's clock reading and interval. -/
structure DecidedEvaluation where
  id : ℕ
  nowMs : ℚ
  intervalMs : ℚ
  deriving DecidableEq

/-- The end of the candle of the entry's own clock reading. -/
def DecidedEvaluation.candleEnd (d : DecidedEvaluation) : ℚ :=
    ⌊d.nowMs / d.intervalMs⌋ * d.intervalMs + d.intervalMs

inductive SignalEvaluation
  | decided (d : DecidedEvaluation)
  | fetchFailed (code : BrokerRestErrorCode) (retryAfterSec : Option ℚ)
  deriving DecidableEq

structure HeldSignal where
  heldUntil : ℚ
  result : SignalEvaluation
  deriving DecidableEq

structure SignalKey where
  assetId : ℕ
  interval : String
  deriving DecidableEq

/-- A flight's key: the key in a candle; an unknown interval has no candle. -/
structure FlightKey where
  key : SignalKey
  candle : Option ℤ
  deriving DecidableEq

inductive SignalFlight
  | fetching (key : SignalKey) (flightKey : FlightKey)
  | settled (flightKey : FlightKey) (result : Option SignalEvaluation)

structure SignalWaiter where
  flight : ℕ
  journal : Bool

inductive SignalCacheEntry
  | hit (key : SignalKey) (d : DecidedEvaluation) (nowMs : ℚ)
  | journal (d : DecidedEvaluation)

structure SignalCache where
  held : OrderedMap SignalKey HeldSignal := .empty
  inFlight : OrderedMap FlightKey ℕ := .empty
  flights : List SignalFlight := []
  /-- the callers that share a flight, each with its `journal` -/
  waiting : List SignalWaiter := []
  journaled : List ℕ := []
  log : List SignalCacheEntry := []

namespace SignalCache

variable (o : SignalCacheOptions) (s : SignalCache)

def journalIfDue (result : SignalEvaluation) (journal : Bool) : SignalCache :=
  match result with
  | .decided d =>
    if journal && !decide (d.id ∈ s.journaled) then
      { s with journaled := d.id :: s.journaled, log := s.log ++ [.journal d] }
    else s
  | .fetchFailed _ _ => s

def holdUntil (result : SignalEvaluation) (now : ℚ) : Option ℚ :=
  match result with
  | .decided d => some (min d.candleEnd (d.nowMs + o.maxTtlMs))
  | .fetchFailed .rateLimited (some retryAfterSec) => some (now + min (retryAfterSec * 1000) o.maxTtlMs)
  | .fetchFailed _ _ => none

/-- What is held of the key at the clock reading; an ended entry leaves. -/
def fromHold (key : SignalKey) (now : ℚ) : Option SignalEvaluation × SignalCache :=
  match s.held.get? key with
  | none => (none, s)
  | some entry =>
    if entry.heldUntil ≤ now then (none, { s with held := s.held.erase key })
    else match entry.result with
      -- what is left of the broker's window
      | .fetchFailed code _ => (some (.fetchFailed code (some ⌈(entry.heldUntil - now) / 1000⌉)), s)
      | .decided d => (some (.decided d), { s with log := s.log ++ [.hit key d now] })

def hold (key : SignalKey) (entry : HeldSignal) : SignalCache :=
  if (s.held.get? key).any (fun current => decide (entry.heldUntil < current.heldUntil)) then s
  else { s with held := ((s.held.erase key).set key entry).trim o.maxEntries }

/-- `hold` where the result is held at all. -/
def holdResult (key : SignalKey) (result : SignalEvaluation) (now : ℚ) : SignalCache :=
  match holdUntil o result now with
  | some heldUntil => s.hold o key { heldUntil, result }
  | none => s

/-- The source's decision, if it has one, takes the place of what is held. -/
def sourceDecision (key : SignalKey) (source : Option DecidedEvaluation) (now : ℚ) : SignalCache :=
  match source with
  | none => s
  | some d => ({ s with held := s.held.erase key } : SignalCache).holdResult o key (.decided d) now

/-- `sourceDecision`, of an inner feed that may throw. -/
def askSource (key : SignalKey) (source : Except String (Option DecidedEvaluation)) (now : ℚ) :
    Except String (Option DecidedEvaluation) × SignalCache :=
  match source with
  | .error e => (.error e, s)
  | .ok source => (.ok source, s.sourceDecision o key source now)

def fromSource (key : SignalKey) (source : Except String (Option DecidedEvaluation)) (now : ℚ) :
    Except String (Option DecidedEvaluation) × SignalCache :=
  match s.fromHold key now with
  | (some (.decided d), s') => (.ok (some d), s')
  | (_, s') => s'.askSource o key source now

inductive Lookup
  | hit (result : SignalEvaluation)
  | rejected (error : String)
  | joined (flight : ℕ)

def flightKeyOf (key : SignalKey) (intervalMs : Option ℚ) (now : ℚ) : FlightKey where
  key := key
  candle := intervalMs.map (fun intervalMs => ⌊now / intervalMs⌋)

/-- A caller joins the flight of its candle, or starts one. -/
def join (key : SignalKey) (intervalMs : Option ℚ) (journal : Bool) (now : ℚ) : Lookup × SignalCache :=
  match s.inFlight.get? (flightKeyOf key intervalMs now) with
  | some flight => (.joined flight, { s with waiting := s.waiting ++ [⟨flight, journal⟩] })
  | none =>
    (.joined s.flights.length,
      { s with
        flights := s.flights ++ [.fetching key (flightKeyOf key intervalMs now)]
        inFlight := s.inFlight.set (flightKeyOf key intervalMs now) s.flights.length
        waiting := s.waiting ++ [⟨s.flights.length, journal⟩] })

/-- `evaluate`, with the clock readings of the hold and of the flight's key. -/
def evaluate (key : SignalKey) (intervalMs : Option ℚ) (journal : Bool)
    (source : Except String (Option DecidedEvaluation)) (now flightNow : ℚ) : Lookup × SignalCache :=
  match s.fromHold key now with
  | (none, s') => s'.join key intervalMs journal flightNow
  | (some (.decided d), s') => (.hit (.decided d), s'.journalIfDue (.decided d) journal)
  | (some (.fetchFailed code retryAfterSec), s') =>
    -- a refusal does not outlast a window of the source
    match source with
    | .error e => (.rejected e, s')
    | .ok none => (.hit (.fetchFailed code retryAfterSec), s')
    | .ok (some d) => (.hit (.decided d), (s'.sourceDecision o key (some d) now).journalIfDue
      (.decided d) journal)

/-- The inner feed answers a flight, or rejects it. -/
def answered (flight : ℕ) (result : Option SignalEvaluation) (now : ℚ) : SignalCache :=
  match s.flights[flight]? with
  | some (.fetching key flightKey) =>
    let settled := { s with flights := s.flights.set flight (.settled flightKey result) }
    match result with
    | some result => settled.holdResult o key result now
    | none => settled
  | _ => s

/-- The flight's own `clear`. -/
def cleared (flight : ℕ) : SignalCache :=
  match s.flights[flight]? with
  | some (.settled flightKey _) => { s with inFlight := s.inFlight.erase flightKey }
  | _ => s

/-- A caller of a settled flight gets its result. -/
def delivered (n : ℕ) : SignalCache :=
  match s.waiting[n]? with
  | some waiter =>
    match s.flights[waiter.flight]? with
    | some (.settled _ (some result)) =>
      ({ s with waiting := s.waiting.eraseIdx n } : SignalCache).journalIfDue result waiter.journal
    | some (.settled _ none) => { s with waiting := s.waiting.eraseIdx n }
    | _ => s
  | none => s

end SignalCache

inductive SignalCacheAct
  | evaluate (key : SignalKey) (intervalMs : Option ℚ) (journal : Bool)
      (source : Except String (Option DecidedEvaluation)) (now flightNow : ℚ)
  | fromSource (key : SignalKey) (source : Except String (Option DecidedEvaluation)) (now : ℚ)
  | answered (flight : ℕ) (result : Option SignalEvaluation) (now : ℚ)
  | cleared (flight : ℕ)
  | delivered (n : ℕ)

def SignalCache.act (o : SignalCacheOptions) (s : SignalCache) : SignalCacheAct → SignalCache
  | .evaluate key intervalMs journal source now flightNow =>
    (s.evaluate o key intervalMs journal source now flightNow).2
  | .fromSource key source now => (s.fromSource o key source now).2
  | .answered flight result now => s.answered o flight result now
  | .cleared flight => s.cleared flight
  | .delivered n => s.delivered n

/-! ## What is held -/

/-- The lines written, oldest first. -/
def SignalCacheEntry.line? : SignalCacheEntry → Option DecidedEvaluation
  | .hit _ _ _ => none
  | .journal d => some d

/-- A held decision ends with its candle at the latest; the entries are few; a hit came before the end
of its candle; and a decision that has its line is marked. -/
structure SignalCache.HeldOk (o : SignalCacheOptions) (s : SignalCache) : Prop where
  ends : ∀ key entry d, s.held.get? key = some entry → entry.result = .decided d → entry.heldUntil ≤
    d.candleEnd
  few : s.held.entries.length ≤ o.maxEntries
  hits : ∀ key d now, .hit key d now ∈ s.log → now < d.candleEnd
  lines : ∀ d ∈ s.log.filterMap SignalCacheEntry.line?, d.id ∈ s.journaled
  once : ((s.log.filterMap SignalCacheEntry.line?).map DecidedEvaluation.id).Nodup

section Steps

variable {o : SignalCacheOptions} {s : SignalCache} {key : SignalKey} {now : ℚ}

/-- **What a reading of the hold finds**: nothing, an ended entry, a refusal or a decision. -/
theorem fromHold_cases (s : SignalCache) (key : SignalKey) (now : ℚ) :
    (s.fromHold key now = (none, s) ∧ s.held.get? key = none) ∨
      (∃ cur, s.held.get? key = some cur ∧ cur.heldUntil ≤ now ∧
        s.fromHold key now = (none, { s with held := s.held.erase key })) ∨
      (∃ cur code left retryAfterSec, s.held.get? key = some cur ∧ now < cur.heldUntil ∧
        cur.result = .fetchFailed code retryAfterSec ∧ s.fromHold key now =
          (some (.fetchFailed code left), s)) ∨
      ∃ cur d, s.held.get? key = some cur ∧ now < cur.heldUntil ∧ cur.result = .decided d ∧
        s.fromHold key now = (some (.decided d), { s with log := s.log ++ [.hit key d now] }) := by
  unfold SignalCache.fromHold
  cases hcur : s.held.get? key with
  | none => exact .inl ⟨rfl, rfl⟩
  | some cur =>
    right
    simp only
    split_ifs with hended
    · exact .inl ⟨cur, rfl, hended, rfl⟩
    · right
      cases hresult : cur.result with
      | fetchFailed code retryAfterSec => exact .inl ⟨cur, code, _, retryAfterSec, rfl,
        not_le.mp hended, hresult, rfl⟩
      | decided d => exact .inr ⟨cur, d, rfl, not_le.mp hended, hresult, rfl⟩

/-- **A hold** leaves its entry, over none that lasts longer, and what was there. -/
theorem hold_spec {entry new : HeldSignal} {key' : SignalKey}
    (h : (s.hold o key entry).held.get? key' = some new) :
    s.held.get? key' = some new ∨
      (key' = key ∧ new = entry ∧ ∀ cur, s.held.get? key = some cur → cur.heldUntil ≤ entry.heldUntil) := by
  unfold SignalCache.hold at h
  split_ifs at h with hlonger
  · exact .inl h
  · have hset := OrderedMap.get?_of_trim h
    rw [OrderedMap.get?_set, OrderedMap.get?_erase] at hset
    split_ifs at hset with hkey
    · refine .inr ⟨hkey.symm, (Option.some.inj hset).symm, fun cur hcur => ?_⟩
      rw [hcur] at hlonger
      simpa using hlonger
    · exact .inl hset

theorem holdUntil_le {d : DecidedEvaluation} {heldUntil : ℚ}
    (h : SignalCache.holdUntil o (.decided d) now = some heldUntil) : heldUntil ≤ d.candleEnd := by
  cases h
  exact min_le_left _ _

theorem holdResult_spec {result : SignalEvaluation} {new : HeldSignal} {key' : SignalKey}
    (h : (s.holdResult o key result now).held.get? key' = some new) :
    s.held.get? key' = some new ∨
      (key' = key ∧ new.result = result ∧ SignalCache.holdUntil o result now = some new.heldUntil ∧
        ∀ cur, s.held.get? key = some cur → cur.heldUntil ≤ new.heldUntil) := by
  unfold SignalCache.holdResult at h
  cases hheld : SignalCache.holdUntil o result now with
  | none =>
    rw [hheld] at h
    exact .inl h
  | some heldUntil =>
    rw [hheld] at h
    rcases hold_spec h with hold | ⟨hkey, rfl, hcur⟩
    · exact .inl hold
    · exact .inr ⟨hkey, rfl, rfl, hcur⟩

/-- Of the other keys and the log a hold changes nothing. -/
theorem holdResult_log (result : SignalEvaluation) :
    (s.holdResult o key result now).log = s.log ∧ (s.holdResult o key result now).journaled =
      s.journaled := by
  unfold SignalCache.holdResult SignalCache.hold
  cases SignalCache.holdUntil o result now with
  | none => exact ⟨rfl, rfl⟩
  | some heldUntil =>
    simp only
    split_ifs
    · exact ⟨rfl, rfl⟩
    · exact ⟨rfl, rfl⟩

theorem SignalCache.HeldOk.holdResult (h : s.HeldOk o) (key : SignalKey) (result : SignalEvaluation)
    (now : ℚ) :
    (s.holdResult o key result now).HeldOk o := by
  obtain ⟨hlog, hjournaled⟩ := @holdResult_log o s key now result
  refine ⟨fun key' entry d hentry hresult => ?_, ?_, hlog ▸ h.hits, ?_, hlog ▸ h.once⟩
  · rcases holdResult_spec hentry with hold | ⟨-, hnew, hheld, -⟩
    · exact h.ends key' entry d hold hresult
    · rw [← hnew, hresult] at hheld
      exact holdUntil_le hheld
  · unfold SignalCache.holdResult SignalCache.hold
    cases SignalCache.holdUntil o result now with
    | none => exact h.few
    | some heldUntil =>
      simp only
      split_ifs
      · exact h.few
      · exact OrderedMap.length_trim_le
  · rw [hlog, hjournaled]
    exact h.lines

theorem SignalCache.HeldOk.erase (h : s.HeldOk o) (key : SignalKey) :
    ({ s with held := s.held.erase key } : SignalCache).HeldOk o := by
  refine ⟨fun key' entry d hentry hresult => ?_, le_trans OrderedMap.length_erase_le h.few, h.hits,
    h.lines, h.once⟩
  rw [OrderedMap.get?_erase] at hentry
  split_ifs at hentry
  exact h.ends key' entry d hentry hresult

theorem SignalCache.HeldOk.sourceDecision (h : s.HeldOk o) (key : SignalKey)
    (source : Option DecidedEvaluation)
    (now : ℚ) : (s.sourceDecision o key source now).HeldOk o := by
  cases source with
  | none => exact h
  | some d => exact (h.erase key).holdResult key (.decided d) now

theorem SignalCache.HeldOk.fromHold (h : s.HeldOk o) (key : SignalKey) (now : ℚ) :
    (s.fromHold key now).2.HeldOk o := by
  rcases fromHold_cases s key now with
    ⟨heq, -⟩ | ⟨cur, -, -, heq⟩ | ⟨cur, code, left, retryAfterSec, -, -, -, heq⟩ | ⟨cur, d, hcur, hnow,
      hresult, heq⟩
  · rw [heq]
    exact h
  · rw [heq]
    exact h.erase key
  · rw [heq]
    exact h
  · rw [heq]
    have hlines : (s.log ++ [SignalCacheEntry.hit key d now]).filterMap SignalCacheEntry.line? =
        s.log.filterMap SignalCacheEntry.line? := by
      rw [List.filterMap_append]
      exact List.append_nil _
    refine ⟨h.ends, h.few, fun key' d' now' hmem => ?_, hlines ▸ h.lines, hlines ▸ h.once⟩
    rcases List.mem_append.mp hmem with hold | hnew
    · exact h.hits key' d' now' hold
    · cases List.mem_singleton.mp hnew
      exact lt_of_lt_of_le hnow (h.ends key cur d hcur hresult)

/-- **A line** is written for a decision without one. -/
theorem SignalCache.HeldOk.journalIfDue (h : s.HeldOk o) (result : SignalEvaluation) (journal : Bool) :
    (s.journalIfDue result journal).HeldOk o := by
  cases result with
  | fetchFailed code retryAfterSec => exact h
  | decided d =>
    unfold SignalCache.journalIfDue
    simp only
    split_ifs with hdue
    · have hfresh : d.id ∉ s.journaled := by
        have hboth := Bool.and_eq_true_iff.mp hdue
        simpa using hboth.2
      have hlines : (s.log ++ [SignalCacheEntry.journal d]).filterMap SignalCacheEntry.line? =
          s.log.filterMap SignalCacheEntry.line? ++ [d] := List.filterMap_append
      refine ⟨h.ends, h.few, fun key' d' now' hmem => ?_, ?_, ?_⟩
      · rcases List.mem_append.mp hmem with hold | hnew
        · exact h.hits key' d' now' hold
        · cases List.mem_singleton.mp hnew
      · show ∀ d' ∈ (s.log ++ [SignalCacheEntry.journal d]).filterMap SignalCacheEntry.line?,
          d'.id ∈ d.id :: s.journaled
        rw [hlines]
        intro d' hd'
        rcases List.mem_append.mp hd' with hold | hnew
        · exact List.mem_cons_of_mem _ (h.lines d' hold)
        · rw [List.mem_singleton.mp hnew]
          exact List.mem_cons_self
      · show (((s.log ++ [SignalCacheEntry.journal d]).filterMap SignalCacheEntry.line?).map
          DecidedEvaluation.id).Nodup
        rw [hlines, List.map_append, List.nodup_append]
        refine ⟨h.once, List.nodup_singleton _, ?_⟩
        intro id hid id' hid' heq
        obtain ⟨d', hd', rfl⟩ := List.mem_map.mp hid
        rw [List.map_singleton, List.mem_singleton] at hid'
        exact hfresh (hid' ▸ heq ▸ h.lines d' hd')
    · exact h

/-- **Every callback** keeps what is held right. -/
theorem SignalCache.HeldOk.act (h : s.HeldOk o) (a : SignalCacheAct) : (s.act o a).HeldOk o := by
  cases a with
  | evaluate key intervalMs journal source now flightNow =>
    have hheld := h.fromHold key now
    show (s.evaluate o key intervalMs journal source now flightNow).2.HeldOk o
    unfold SignalCache.evaluate
    generalize s.fromHold key now = found at hheld
    obtain ⟨answer, s'⟩ := found
    cases answer with
    | none =>
      show (s'.join key intervalMs journal flightNow).2.HeldOk o
      unfold SignalCache.join
      split
      · exact ⟨hheld.ends, hheld.few, hheld.hits, hheld.lines, hheld.once⟩
      · exact ⟨hheld.ends, hheld.few, hheld.hits, hheld.lines, hheld.once⟩
    | some answer =>
      cases answer with
      | decided d => exact hheld.journalIfDue (.decided d) journal
      | fetchFailed code retryAfterSec =>
        cases source with
        | error e => exact hheld
        | ok source =>
          cases source with
          | none => exact hheld
          | some d => exact (hheld.sourceDecision key (some d) now).journalIfDue (.decided d) journal
  | fromSource key source now =>
    have hheld := h.fromHold key now
    show (s.fromSource o key source now).2.HeldOk o
    unfold SignalCache.fromSource
    generalize s.fromHold key now = found at hheld
    obtain ⟨answer, s'⟩ := found
    have hmiss : (s'.askSource o key source now).2.HeldOk o := by
      cases source with
      | error e => exact hheld
      | ok source => exact hheld.sourceDecision key source now
    cases answer with
    | none => exact hmiss
    | some answer =>
      cases answer with
      | decided d => exact hheld
      | fetchFailed code retryAfterSec => exact hmiss
  | answered flight result now =>
    show (s.answered o flight result now).HeldOk o
    unfold SignalCache.answered
    split
    · rename_i key flightKey hflight
      have hsettled : ({ s with flights := s.flights.set flight (.settled flightKey result) }
        : SignalCache).HeldOk o :=
        ⟨h.ends, h.few, h.hits, h.lines, h.once⟩
      cases result with
      | none => exact hsettled
      | some result => exact hsettled.holdResult key result now
    · exact h
  | cleared flight =>
    show (s.cleared flight).HeldOk o
    unfold SignalCache.cleared
    split
    · exact ⟨h.ends, h.few, h.hits, h.lines, h.once⟩
    · exact h
  | delivered n =>
    show (s.delivered n).HeldOk o
    unfold SignalCache.delivered
    split
    · have hless : ({ s with waiting := s.waiting.eraseIdx n } : SignalCache).HeldOk o :=
        ⟨h.ends, h.few, h.hits, h.lines, h.once⟩
      split
      · exact hless.journalIfDue _ _
      · exact hless
      · exact h
    · exact h

/-! ## Which entry replaces which -/

/-- The source's decision a lookup of the key was given, and the clock reading of its hold. -/
def SignalCacheAct.source? (key : SignalKey) : SignalCacheAct → Option (DecidedEvaluation × ℚ)
  | .evaluate key' _ _ (.ok (some d)) now _ => if key' = key then some (d, now) else none
  | .fromSource key' (.ok (some d)) now => if key' = key then some (d, now) else none
  | _ => none

/-- What may stand in an entry's place: itself, one that lasts as long, or the decision of the source of
a lookup that found it a refusal or ended. -/
def Replaces (a : SignalCacheAct) (key : SignalKey) (cur new : HeldSignal) : Prop :=
  new = cur ∨ cur.heldUntil ≤ new.heldUntil ∨
    ∃ d now, a.source? key = some (d, now) ∧ new.result = .decided d ∧
      (cur.heldUntil ≤ now ∨ ∃ code retryAfterSec, cur.result = .fetchFailed code retryAfterSec)

theorem journalIfDue_held (result : SignalEvaluation) (journal : Bool) :
    (s.journalIfDue result journal).held = s.held := by
  cases result with
  | fetchFailed code retryAfterSec => rfl
  | decided d =>
    unfold SignalCache.journalIfDue
    simp only
    split_ifs <;> rfl

theorem sourceDecision_spec {d : DecidedEvaluation} {cur new : HeldSignal} {key' : SignalKey}
    (hcur : s.held.get? key' = some cur)
    (h : (s.sourceDecision o key (some d) now).held.get? key' = some new) :
    new = cur ∨ (key' = key ∧ new.result = .decided d) := by
  rcases holdResult_spec h with hold | ⟨hkey, hnew, -, -⟩
  · left
    rw [OrderedMap.get?_erase] at hold
    split_ifs at hold
    rw [hcur] at hold
    exact (Option.some.inj hold).symm
  · exact .inr ⟨hkey, hnew⟩

/-- **A source's decision replaces** what is held under its key. -/
theorem sourceDecision_replaces {d : DecidedEvaluation} {cur : HeldSignal} (h : s.HeldOk o)
    (hcur : s.held.get? key = some cur) : (s.sourceDecision o key (some d) now).held.get? key =
      some { heldUntil := min d.candleEnd (d.nowMs + o.maxTtlMs), result := .decided d } := by
  have hgone : (s.held.erase key).get? key = none := by rw [OrderedMap.get?_erase, if_pos rfl]
  have hlen := OrderedMap.length_erase hcur
  have hagain : ((s.held.erase key).erase key).get? key = none := by rw [OrderedMap.get?_erase, if_pos rfl]
  have hfew := h.few
  have hle : ((s.held.erase key).erase key).entries.length ≤ (s.held.erase key).entries.length :=
    OrderedMap.length_erase_le
  show (SignalCache.hold o { s with held := s.held.erase key } key _).held.get? key = _
  unfold SignalCache.hold
  simp only
  rw [hgone, if_neg (by simp)]
  show (((s.held.erase key).erase key).set key _ |>.trim o.maxEntries).get? key = _
  rw [OrderedMap.trim_eq_self, OrderedMap.get?_set, if_pos rfl]
  rw [OrderedMap.length_set, if_pos hagain]
  omega

/-- **Every callback** replaces an entry by one that may stand in its place. -/
theorem SignalCache.act_replaces {cur new : HeldSignal} (a : SignalCacheAct)
    (hcur : s.held.get? key = some cur) (hnew : (s.act o a).held.get? key = some new) :
      Replaces a key cur new := by
  have hsame : s.held.get? key = some new → Replaces a key cur new :=
    fun h => .inl (Option.some.inj (h.symm.trans hcur))
  have herased : ∀ key', (s.held.erase key').get? key = some new → Replaces a key cur new := by
    intro key' h
    rw [OrderedMap.get?_erase] at h
    split_ifs at h
    exact hsame h
  cases a with
  | evaluate key' intervalMs journal source now flightNow =>
    have hfound := fromHold_cases s key' now
    have hevaluate : (s.evaluate o key' intervalMs journal source now flightNow).2.held.get? key =
      some new := hnew
    have hjoin : ∀ s' : SignalCache, (s'.join key' intervalMs journal flightNow).2.held = s'.held := by
      intro s'
      unfold SignalCache.join
      split <;> rfl
    unfold SignalCache.evaluate at hevaluate
    rcases hfound with ⟨heq, -⟩ | ⟨cur', -, -, heq⟩ |
      ⟨cur', code, left, retryAfterSec, hcur', -, hresult, heq⟩ | ⟨cur', d, -, -, -, heq⟩
    · rw [heq] at hevaluate
      simp only [hjoin] at hevaluate
      exact hsame hevaluate
    · rw [heq] at hevaluate
      simp only [hjoin] at hevaluate
      exact herased key' hevaluate
    · rw [heq] at hevaluate
      cases source with
      | error e => exact hsame hevaluate
      | ok source =>
        cases source with
        | none => exact hsame hevaluate
        | some d =>
          simp only [journalIfDue_held] at hevaluate
          rcases sourceDecision_spec hcur hevaluate with hold | ⟨rfl, hdecided⟩
          · exact .inl hold
          · rw [hcur] at hcur'
            cases hcur'
            exact .inr (.inr ⟨d, now, if_pos rfl, hdecided, .inr ⟨code, retryAfterSec, hresult⟩⟩)
    · rw [heq] at hevaluate
      simp only [journalIfDue_held] at hevaluate
      exact hsame hevaluate
  | fromSource key' source now =>
    have hfound := fromHold_cases s key' now
    have hlookup : (s.fromSource o key' source now).2.held.get? key = some new := hnew
    unfold SignalCache.fromSource at hlookup
    rcases hfound with ⟨heq, hnone⟩ | ⟨cur', hcur', hended, heq⟩ |
      ⟨cur', code, left, retryAfterSec, hcur', -, hresult, heq⟩ | ⟨cur', d, -, -, -, heq⟩
    · rw [heq] at hlookup
      cases source with
      | error e => exact hsame hlookup
      | ok source =>
        cases source with
        | none => exact hsame hlookup
        | some d =>
          rcases @sourceDecision_spec o s key' now d cur new key hcur hlookup with hold | ⟨rfl, -⟩
          · exact .inl hold
          · rw [hnone] at hcur
            cases hcur
    · rw [heq] at hlookup
      cases source with
      | error e => exact herased key' hlookup
      | ok source =>
        cases source with
        | none => exact herased key' hlookup
        | some d =>
          rcases holdResult_spec hlookup with hold | ⟨rfl, hdecided, -, -⟩
          · rw [OrderedMap.get?_erase] at hold
            split_ifs at hold
            exact herased key' hold
          · rw [hcur] at hcur'
            cases hcur'
            exact .inr (.inr ⟨d, now, if_pos rfl, hdecided, .inl hended⟩)
    · rw [heq] at hlookup
      cases source with
      | error e => exact hsame hlookup
      | ok source =>
        cases source with
        | none => exact hsame hlookup
        | some d =>
          rcases @sourceDecision_spec o s key' now d cur new key hcur hlookup with hold | ⟨rfl, hdecided⟩
          · exact .inl hold
          · rw [hcur] at hcur'
            cases hcur'
            exact .inr (.inr ⟨d, now, if_pos rfl, hdecided, .inr ⟨code, retryAfterSec, hresult⟩⟩)
    · rw [heq] at hlookup
      exact hsame hlookup
  | answered flight result now =>
    have hanswered : (s.answered o flight result now).held.get? key = some new := hnew
    unfold SignalCache.answered at hanswered
    split at hanswered
    · cases result with
      | none => exact hsame hanswered
      | some result =>
        rcases holdResult_spec hanswered with hold | ⟨rfl, -, -, hlonger⟩
        · exact hsame hold
        · exact .inr (.inl (hlonger cur hcur))
    · exact hsame hanswered
  | cleared flight =>
    have hcleared : (s.cleared flight).held.get? key = some new := hnew
    unfold SignalCache.cleared at hcleared
    split at hcleared
    · exact hsame hcleared
    · exact hsame hcleared
  | delivered n =>
    have hdelivered : (s.delivered n).held.get? key = some new := hnew
    unfold SignalCache.delivered at hdelivered
    split at hdelivered
    · split at hdelivered
      · rw [journalIfDue_held] at hdelivered
        exact hsame hdelivered
      · exact hsame hdelivered
      · exact hsame hdelivered
    · exact hsame hdelivered

/-- A lookup that finds a refusal held gets the source's decision, and the decision is held in its place. -/
theorem refusal_gives_way {d : DecidedEvaluation} {cur : HeldSignal} {code : BrokerRestErrorCode}
    {retryAfterSec : Option ℚ} (h : s.HeldOk o) (hcur : s.held.get? key = some cur)
    (hrefusal : cur.result = .fetchFailed code retryAfterSec) (hnow : now < cur.heldUntil) :
    (s.fromSource o key (.ok (some d)) now).1 = .ok (some d) ∧
      (s.fromSource o key (.ok (some d)) now).2.held.get? key =
        some { heldUntil := min d.candleEnd (d.nowMs + o.maxTtlMs), result := .decided d } ∧
      ∀ intervalMs journal flightNow,
        (s.evaluate o key intervalMs journal (.ok (some d)) now flightNow).1 = .hit (.decided d) ∧
        (s.evaluate o key intervalMs journal (.ok (some d)) now flightNow).2.held.get? key =
          some { heldUntil := min d.candleEnd (d.nowMs + o.maxTtlMs), result := .decided d } := by
  have hheld := @sourceDecision_replaces o s key now d cur h hcur
  have hfound : ∃ left, s.fromHold key now = (some (.fetchFailed code left), s) := by
    rcases fromHold_cases s key now with ⟨-, hnone⟩ | ⟨cur', hcur', hended, -⟩ |
      ⟨cur', code', left, _, hcur', -, hresult, heq⟩ | ⟨cur', d', hcur', -, hresult, -⟩
    · rw [hcur] at hnone
      cases hnone
    · rw [hcur] at hcur'
      cases hcur'
      exact absurd hnow (not_lt.mpr hended)
    · rw [hcur] at hcur'
      cases hcur'
      rw [hrefusal] at hresult
      cases hresult
      exact ⟨left, heq⟩
    · rw [hcur] at hcur'
      cases hcur'
      rw [hrefusal] at hresult
      cases hresult
  obtain ⟨left, heq⟩ := hfound
  unfold SignalCache.fromSource SignalCache.evaluate
  rw [heq]
  refine ⟨rfl, hheld, fun intervalMs journal flightNow => ⟨rfl, ?_⟩⟩
  show ((s.sourceDecision o key (some d) now).journalIfDue (.decided d) journal).held.get? key = _
  rw [journalIfDue_held]
  exact hheld

end Steps

theorem SignalCache.run_heldOk (o : SignalCacheOptions) (as : List SignalCacheAct) :
    (run (SignalCache.act o) {} as).HeldOk o := by
  refine run_induction ?_ (fun s a h => h.act a) as
  refine ⟨fun key entry d h => ?_, Nat.zero_le _, fun key d now h => absurd h List.not_mem_nil,
    fun d h => absurd h List.not_mem_nil, List.nodup_nil⟩
  cases h

/-- **The signal cache**, in every run: a hit comes before the end of its decision's candle; a decision
has one line at most; a callback puts in an entry's place one that lasts as long, or the source's
decision where the entry was a refusal or had ended; a lookup that finds a refusal gives it up for the
source's decision; and the entries are never more than `maxEntries`. -/
theorem signal_cache (o : SignalCacheOptions) (as : List SignalCacheAct) :
    (∀ key d now, .hit key d now ∈ (run (SignalCache.act o) {} as).log → now < d.candleEnd) ∧
      (((run (SignalCache.act o) {} as).log.filterMap SignalCacheEntry.line?).map
        DecidedEvaluation.id).Nodup ∧
      (∀ a key cur new, (run (SignalCache.act o) {} as).held.get? key = some cur →
        (run (SignalCache.act o) {} (as ++ [a])).held.get? key = some new → Replaces a key cur new) ∧
      (∀ key cur code retryAfterSec now d, (run (SignalCache.act o) {} as).held.get? key = some cur →
        cur.result = .fetchFailed code retryAfterSec → now < cur.heldUntil →
        ((run (SignalCache.act o) {} as).fromSource o key (.ok (some d)) now).1 = .ok (some d) ∧
          ((run (SignalCache.act o) {} as).fromSource o key (.ok (some d)) now).2.held.get? key =
            some { heldUntil := min d.candleEnd (d.nowMs + o.maxTtlMs), result := .decided d } ∧
          ∀ intervalMs journal flightNow,
            ((run (SignalCache.act o) {} as).evaluate o key intervalMs journal (.ok (some d)) now
              flightNow).1 =
              .hit (.decided d) ∧
            ((run (SignalCache.act o) {} as).evaluate o key intervalMs journal (.ok (some d)) now
              flightNow).2.held.get? key =
                some { heldUntil := min d.candleEnd (d.nowMs + o.maxTtlMs), result := .decided d }) ∧
      (run (SignalCache.act o) {} as).held.entries.length ≤ o.maxEntries := by
  have h := SignalCache.run_heldOk o as
  refine ⟨h.hits, h.once, fun a key cur new hcur hnew => ?_, ?_, h.few⟩
  · rw [run_snoc] at hnew
    exact SignalCache.act_replaces a hcur hnew
  · intro key cur code retryAfterSec now d hcur hrefusal hnow
    exact refusal_gives_way h hcur hrefusal hnow

/-- A refusal held, and the source's decision at the next lookup; its line is written once for two
callers. -/
theorem signal_cache_two :
    let o : SignalCacheOptions := { maxTtlMs := 60000, maxEntries := 1 }
    let key : SignalKey := { assetId := 7, interval := "1m" }
    let d : DecidedEvaluation := { id := 3, nowMs := 61000, intervalMs := 60000 }
    let s := run (SignalCache.act o) {}
      [.evaluate key (some 60000) false (.ok none) 60000 60000,
        .answered 0 (some (.fetchFailed .rateLimited (some 30))) 60500, .cleared 0, .delivered 0]
    (s.fromSource o key (.ok (some d)) 61000).1 = .ok (some d) ∧
      (((run (SignalCache.act o) s [.evaluate key (some 60000) true (.ok (some d)) 61000 61000,
        .evaluate key (some 60000) true (.ok none) 62000 62000]).log.filterMap SignalCacheEntry.line?).map
          DecidedEvaluation.id) = [3] := by
  intro o key d s
  have h := signal_cache o
    [.evaluate key (some 60000) false (.ok none) 60000 60000,
      .answered 0 (some (.fetchFailed .rateLimited (some 30))) 60500, .cleared 0, .delivered 0]
  have hheld : s.held.get? key =
      some { heldUntil := 90500, result := .fetchFailed .rateLimited (some 30) } := by
    decide +kernel
  refine ⟨(h.2.2.2.1 key _ .rateLimited (some 30) 61000 d hheld rfl (by norm_num)).1, ?_⟩
  decide +kernel

end Binarius
