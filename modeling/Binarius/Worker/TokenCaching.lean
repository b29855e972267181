import Mathlib.Tactic
import Binarius.Lib.History
import Binarius.Worker.TokenCache

/-!
# Worker.TokenCaching — the token cache serves no refused token

* `CacheEventOk`: **what may be served, stored and driven out**, by what happened before.
* `EntriesInv`: the entries, read off the log: a fingerprint stays until another report or an eviction.
* `FlightsInv`: the flights and the pending requests: one at its flight's generation has seen no report
  since it began.
* `token_cache`: **every run's log is right**, and its entries stay few.
-/

namespace Binarius

open Lib

/-! ## The log -/

/-- The account whose entry is written. -/
def CacheEvent.written? : CacheEvent → Option String
  | asked _ account (some _) => some account
  | stored _ account _ _ => some account
  | _ => none

def writesOf (log : List CacheEvent) : List String := log.filterMap CacheEvent.written?

/-- No request of the account reports a refused token. -/
def NoReport (account : String) (es : List CacheEvent) : Prop :=
  ∀ id fingerprint, .asked id account (some fingerprint) ∉ es

/-- What ends a fingerprint: a report of another token of the account, or the eviction of its entry. -/
def Forgotten (account fingerprint : String) (since : List CacheEvent) : Prop :=
  (∃ id other, .asked id account (some other) ∈ since ∧ other ≠ fingerprint) ∨ .evicted account ∈ since

/-- A token is served less than the time to live after it was stored, and none whose fingerprint the account
reported, unless that is forgotten; an ok answer is stored whose request saw no report since it began; an
entry leaves when as many other accounts' entries were written since its own. -/
def CacheEventOk (o : TokenCacheOptions) (hashToken : String → String) (before : List CacheEvent) :
    CacheEvent → Prop
  | .served account accessToken moment =>
    (∃ id storedAt, .stored id account accessToken storedAt ∈ before ∧ storedAt ≤ moment ∧
      moment < storedAt + o.ttlMs) ∧
    ∀ front id fingerprint since, before = front ++ .asked id account (some fingerprint) :: since →
      hashToken accessToken = fingerprint → Forgotten account fingerprint since
  | .asked id _ _ => ∀ account refusedToken, .asked id account refusedToken ∉ before
  | .answered id _ => ∃ account refusedToken, .asked id account refusedToken ∈ before
  | .stored id account accessToken _ =>
    .answered id (.ok accessToken) ∈ before ∧
    ∃ front refusedToken since, before = front ++ .asked id account refusedToken :: since ∧
      NoReport account since
  | .evicted account =>
    ∃ (front since others : List String), writesOf before = front ++ account :: since ∧ others.Nodup ∧
      others.length = o.maxEntries ∧ account ∉ others ∧ ∀ other ∈ others, other ∈ since

section Log

variable {log es : List CacheEvent} {e : CacheEvent} {account fingerprint : String}

theorem Forgotten.later (h : Forgotten account fingerprint log) :
    Forgotten account fingerprint (log ++ es) := by
  rcases h with ⟨id, other, hmem, hne⟩ | hmem
  · exact .inl ⟨id, other, List.mem_append_left _ hmem, hne⟩
  · exact .inr (List.mem_append_left _ hmem)

theorem writesOf_snoc : writesOf (log ++ [e]) = writesOf log ++ e.written?.toList := by
  unfold writesOf
  rw [List.filterMap_append]
  cases h : e.written? with
  | none => rw [List.filterMap_cons_none h]; rfl
  | some account => rw [List.filterMap_cons_some h]; rfl

end Log

/-! ## The entries -/

/-- The entries, read off the log. -/
structure EntriesInv (o : TokenCacheOptions) (hashToken : String → String) (clock : ℤ)
    (entries : OrderedMap String TokenCacheEntry) (log : List CacheEvent) : Prop where
  held : ∀ account entry token, entries.get? account = some entry → entry.token = some token →
    entry.refused ≠ some (hashToken token.accessToken) ∧
      ∃ id storedAt, .stored id account token.accessToken storedAt ∈ log ∧ storedAt ≤ clock ∧
        token.expiresAt = storedAt + o.ttlMs
  remembered : ∀ front id account fingerprint since,
    log = front ++ .asked id account (some fingerprint) :: since →
      Forgotten account fingerprint since ∨
        (entries.get? account).bind TokenCacheEntry.refused = some fingerprint
  order : OrderedMap.InOrder (writesOf log) entries
  few : entries.entries.length ≤ o.maxEntries

section Entries

variable {o : TokenCacheOptions} {hashToken : String → String} {clock now : ℤ}
  {entries : OrderedMap String TokenCacheEntry} {log : List CacheEvent} {e : CacheEvent}
  {account : String} {entry : TokenCacheEntry}

/-- An event that writes no entry, and a later clock. -/
theorem EntriesInv.quiet (h : EntriesInv o hashToken clock entries log) (hwritten : e.written? = none)
    (hnow : clock ≤ now) : EntriesInv o hashToken now entries (log ++ [e]) := by
  refine ⟨fun account entry token hget htoken => ?_, fun front id account fingerprint since heq => ?_, ?_, h.few⟩
  · obtain ⟨hrefused, id, storedAt, hmem, hpast, hexpires⟩ := h.held account entry token hget htoken
    exact ⟨hrefused, id, storedAt, List.mem_append_left _ hmem, hpast.trans hnow, hexpires⟩
  · rcases snoc_eq_split heq with ⟨since', rfl, hlog⟩ | ⟨-, rfl, -⟩
    · rcases h.remembered front id account fingerprint since' hlog with hforgotten | hkept
      · exact .inl hforgotten.later
      · exact .inr hkept
    · cases hwritten
  · rw [writesOf_snoc, hwritten]
    exact (List.append_nil (writesOf log)).symm ▸ h.order

/-- The entry written, and the one driven out. -/
theorem EntriesInv.renew (h : EntriesInv o hashToken clock entries log) (hwritten : e.written? = some account)
    (hheld : ∀ token, entry.token = some token → entry.refused ≠ some (hashToken token.accessToken) ∧
      ∃ id storedAt, .stored id account token.accessToken storedAt ∈ log ++ [e] ∧ storedAt ≤ clock ∧
        token.expiresAt = storedAt + o.ttlMs)
    (hremembered : ∀ front id fingerprint since,
      log ++ [e] = front ++ .asked id account (some fingerprint) :: since →
        Forgotten account fingerprint since ∨ entry.refused = some fingerprint)
    (hok : LogOk (CacheEventOk o hashToken) (log ++ [e])) :
    EntriesInv o hashToken clock (entries.renew o.maxEntries account entry)
        (log ++ [e] ++ (entries.evicts o.maxEntries account).toList.map .evicted) ∧
      LogOk (CacheEventOk o hashToken) (log ++ [e] ++ (entries.evicts o.maxEntries account).toList.map .evicted) := by
  have hwrites : writesOf (log ++ [e]) = writesOf log ++ [account] := by
    rw [writesOf_snoc, hwritten]
    rfl
  -- what a report before the write left, in the entries as they were
  have hold : ∀ front id account' fingerprint since,
      log ++ [e] = front ++ .asked id account' (some fingerprint) :: since →
        Forgotten account' fingerprint since ∨ account = account' ∧ entry.refused = some fingerprint ∨
          account ≠ account' ∧ (entries.get? account').bind TokenCacheEntry.refused = some fingerprint := by
    intro front id account' fingerprint since heq
    by_cases hsame : account = account'
    · subst hsame
      rcases hremembered front id fingerprint since heq with hforgotten | hrefused
      · exact .inl hforgotten
      · exact .inr (.inl ⟨rfl, hrefused⟩)
    · rcases snoc_eq_split heq with ⟨since', rfl, hlog⟩ | ⟨-, rfl, -⟩
      · rcases h.remembered front id account' fingerprint since' hlog with hforgotten | hkept
        · exact .inl hforgotten.later
        · exact .inr (.inr ⟨hsame, hkept⟩)
      · exact absurd (Option.some.inj hwritten).symm hsame
  have hheld' : ∀ evicted : List CacheEvent, ∀ account' entry' token,
      (entries.renew o.maxEntries account entry).get? account' = some entry' → entry'.token = some token →
        entry'.refused ≠ some (hashToken token.accessToken) ∧ ∃ id storedAt,
          .stored id account' token.accessToken storedAt ∈ log ++ [e] ++ evicted ∧ storedAt ≤ clock ∧
            token.expiresAt = storedAt + o.ttlMs := by
    intro evicted account' entry' token hget htoken
    rw [OrderedMap.get?_renew] at hget
    split_ifs at hget with hsame hgone
    · obtain rfl := Option.some.inj hget
      subst hsame
      obtain ⟨hrefused, id, storedAt, hmem, hrest⟩ := hheld token htoken
      exact ⟨hrefused, id, storedAt, List.mem_append_left _ hmem, hrest⟩
    · obtain ⟨hrefused, id, storedAt, hmem, hrest⟩ := h.held account' entry' token hget htoken
      exact ⟨hrefused, id, storedAt, List.mem_append_left _ (List.mem_append_left _ hmem), hrest⟩
  have hfew := OrderedMap.length_renew_le (v := entry) (k := account) o.maxEntries_pos h.few
  cases hevicts : entries.evicts o.maxEntries account with
  | none =>
    have hnil : log ++ [e] ++ (none : Option String).toList.map CacheEvent.evicted = log ++ [e] := List.append_nil _
    rw [hnil]
    refine ⟨⟨?_, fun front id account' fingerprint since heq => ?_, ?_, hfew⟩, hok⟩
    · rw [← List.append_nil (log ++ [e])]
      exact hheld' []
    · rcases hold front id account' fingerprint since heq with hforgotten | ⟨rfl, hrefused⟩ | ⟨hne, hkept⟩
      · exact .inl hforgotten
      · rw [OrderedMap.get?_renew, if_pos rfl]
        exact .inr hrefused
      · rw [OrderedMap.get?_renew, hevicts, if_neg hne, if_neg (fun hsome => by cases hsome)]
        exact .inr hkept
    · rw [hwrites]
      exact h.order.renew
  | some oldest =>
    show EntriesInv o hashToken clock _ (log ++ [e] ++ [.evicted oldest]) ∧ LogOk _ (log ++ [e] ++ [.evicted oldest])
    refine ⟨⟨hheld' _, fun front id account' fingerprint since heq => ?_, ?_, hfew⟩, hok.snoc ?_⟩
    · rcases snoc_eq_split heq with ⟨since', rfl, hlog⟩ | ⟨-, hev, -⟩
      · rcases hold front id account' fingerprint since' hlog with hforgotten | ⟨rfl, hrefused⟩ | ⟨hne, hkept⟩
        · exact .inl hforgotten.later
        · rw [OrderedMap.get?_renew, if_pos rfl]
          exact .inr hrefused
        · by_cases hgone : oldest = account'
          · rw [← hgone]
            exact .inl (.inr (List.mem_append_right _ (List.mem_singleton.mpr rfl)))
          · rw [OrderedMap.get?_renew, hevicts, if_neg hne, if_neg (fun hsome => hgone (Option.some.inj hsome))]
            exact .inr hkept
      · cases hev
    · have hsame : writesOf (log ++ [e] ++ [.evicted oldest]) = writesOf (log ++ [e]) := by
        rw [writesOf_snoc]
        exact List.append_nil _
      rw [hsame, hwrites]
      exact h.order.renew
    · show ∃ (front since others : List String), writesOf (log ++ [e]) = front ++ oldest :: since ∧ _
      rw [hwrites]
      exact h.order.evicted h.few hevicts

/-- A report's write. -/
theorem EntriesInv.report (h : EntriesInv o hashToken clock entries log) {id : ℕ} {fingerprint : String}
    (hok : LogOk (CacheEventOk o hashToken) (log ++ [.asked id account (some fingerprint)])) :
    EntriesInv o hashToken clock (entries.renew o.maxEntries account ⟨none, some fingerprint⟩)
        (log ++ [.asked id account (some fingerprint)] ++
          (entries.evicts o.maxEntries account).toList.map .evicted) ∧
      LogOk (CacheEventOk o hashToken) (log ++ [.asked id account (some fingerprint)] ++
        (entries.evicts o.maxEntries account).toList.map .evicted) := by
  refine h.renew rfl (fun token htoken => by cases htoken) (fun front id' fingerprint' since heq => ?_) hok
  rcases snoc_eq_split heq with ⟨since', rfl, -⟩ | ⟨-, hev, -⟩
  · by_cases hsame : fingerprint = fingerprint'
    · exact .inr (congrArg some hsame)
    · exact .inl (.inl ⟨id, fingerprint, List.mem_append_right _ (List.mem_singleton.mpr rfl), hsame⟩)
  · cases hev
    exact .inr rfl

/-- An ok answer's write. -/
theorem EntriesInv.store (h : EntriesInv o hashToken clock entries log) {id : ℕ} {accessToken : String}
    (hrefused : (entries.get? account).bind TokenCacheEntry.refused ≠ some (hashToken accessToken))
    (hok : LogOk (CacheEventOk o hashToken) (log ++ [.stored id account accessToken clock])) :
    EntriesInv o hashToken clock
        (entries.renew o.maxEntries account
          ⟨some ⟨accessToken, clock + o.ttlMs⟩, (entries.get? account).bind TokenCacheEntry.refused⟩)
        (log ++ [.stored id account accessToken clock] ++
          (entries.evicts o.maxEntries account).toList.map .evicted) ∧
      LogOk (CacheEventOk o hashToken) (log ++ [.stored id account accessToken clock] ++
        (entries.evicts o.maxEntries account).toList.map .evicted) := by
  refine h.renew rfl (fun token htoken => ?_) (fun front id' fingerprint' since heq => ?_) hok
  · obtain rfl := Option.some.inj htoken
    exact ⟨hrefused, id, clock, List.mem_append_right _ (List.mem_singleton.mpr rfl), le_refl _, rfl⟩
  · rcases snoc_eq_split heq with ⟨since', rfl, hlog⟩ | ⟨-, hev, -⟩
    · rcases h.remembered front id' account fingerprint' since' hlog with hforgotten | hkept
      · exact .inl hforgotten.later
      · exact .inr hkept
    · cases hev

end Entries

/-! ## The flights -/

/-- The flights and the pending requests. -/
structure FlightsInv (s : TokenCache) : Prop where
  own : ∀ account account' flight, s.inFlight account = some flight → s.inFlight account' = some flight →
    account = account'
  known : ∀ account flight, s.inFlight account = some flight → flight < s.made
  requests : ∀ account flight, s.inFlight account = some flight →
    (s.flights flight).requests = s.pending.countP (fun r => decide (r.flight = flight))
  pending : ∀ r ∈ s.pending, s.inFlight r.account = some r.flight ∧
    r.generation ≤ (s.flights r.flight).generation
  since : ∀ r ∈ s.pending, ∃ front refusedToken since,
    s.log = front ++ .asked r.id r.account refusedToken :: since ∧
      (r.generation = (s.flights r.flight).generation → NoReport r.account since)
  asked : ∀ id account refusedToken, .asked id account refusedToken ∈ s.log → id < s.asked

section Flights

variable {s s' : TokenCache} {account : String} {flight : ℕ}

/-- Events that begin no request. -/
theorem FlightsInv.quiet (h : FlightsInv s) (es : List CacheEvent)
    (hes : ∀ id account refusedToken, .asked id account refusedToken ∉ es)
    (hlog : s'.log = s.log ++ es) (hinFlight : s'.inFlight = s.inFlight) (hflights : s'.flights = s.flights)
    (hmade : s'.made = s.made) (hpending : s'.pending = s.pending) (hasked : s'.asked = s.asked) :
    FlightsInv s' := by
  obtain ⟨hown, hknown, hrequests, hpend, hsince, hids⟩ := h
  refine ⟨?_, ?_, ?_, ?_, ?_, ?_⟩
  · rw [hinFlight]
    exact hown
  · rw [hinFlight, hmade]
    exact hknown
  · rw [hinFlight, hflights, hpending]
    exact hrequests
  · rw [hinFlight, hflights, hpending]
    exact hpend
  · rw [hflights, hpending, hlog]
    intro r hr
    obtain ⟨front, refusedToken, since, heq, hnone⟩ := hsince r hr
    refine ⟨front, refusedToken, since ++ es, by rw [heq, List.append_assoc, List.cons_append], fun hgen => ?_⟩
    intro id fingerprint hmem
    rcases List.mem_append.mp hmem with hold | hnew
    · exact hnone hgen id fingerprint hold
    · exact hes _ _ _ hnew
  · rw [hlog, hasked]
    intro id account refusedToken hmem
    rcases List.mem_append.mp hmem with hold | hnew
    · exact hids id account refusedToken hold
    · exact absurd hnew (hes _ _ _)

/-- The account's flight, made where it had none. -/
theorem FlightsInv.flightOf (h : FlightsInv s) (account : String) :
    FlightsInv (s.flightOf account).1 ∧
      (s.flightOf account).1.inFlight account = some (s.flightOf account).2 ∧
      (s.flightOf account).1.entries = s.entries ∧ (s.flightOf account).1.log = s.log ∧
      (s.flightOf account).1.asked = s.asked := by
  unfold TokenCache.flightOf
  cases hflight : s.inFlight account with
  | some flight => exact ⟨h, hflight, rfl, rfl, rfl⟩
  | none =>
    -- the new flight is no pending request's
    have hfresh : ∀ r ∈ s.pending, r.flight ≠ s.made ∧ r.account ≠ account := by
      intro r hr
      obtain ⟨hin, -⟩ := h.pending r hr
      refine ⟨(h.known _ _ hin).ne, ?_⟩
      rintro rfl
      exact nomatch hin.symm.trans hflight
    have hget : ∀ account' flight', Function.update s.inFlight account (some s.made) account' = some flight' →
        (account' = account ∧ flight' = s.made) ∨ (account' ≠ account ∧ s.inFlight account' = some flight') := by
      intro account' flight' hin
      by_cases hsame : account' = account
      · rw [hsame, Function.update_self] at hin
        exact .inl ⟨hsame, (Option.some.inj hin).symm⟩
      · rw [Function.update_of_ne hsame] at hin
        exact .inr ⟨hsame, hin⟩
    refine ⟨⟨?_, ?_, ?_, ?_, ?_, h.asked⟩, Function.update_self _ _ _, rfl, rfl, rfl⟩
    · intro account₁ account₂ flight' h₁ h₂
      rcases hget _ _ h₁ with ⟨rfl, hf₁⟩ | ⟨-, hold₁⟩
      · rcases hget _ _ h₂ with ⟨rfl, -⟩ | ⟨-, hold₂⟩
        · rfl
        · exact absurd hf₁ (h.known _ _ hold₂).ne
      · rcases hget _ _ h₂ with ⟨rfl, hf₂⟩ | ⟨-, hold₂⟩
        · exact absurd hf₂ (h.known _ _ hold₁).ne
        · exact h.own _ _ _ hold₁ hold₂
    · intro account' flight' hin
      show flight' < s.made + 1
      rcases hget _ _ hin with ⟨-, rfl⟩ | ⟨-, hold⟩
      · omega
      · have := h.known _ _ hold
        omega
    · intro account' flight' hin
      show (Function.update s.flights s.made ⟨0, 0⟩ flight').requests = _
      rcases hget _ _ hin with ⟨-, rfl⟩ | ⟨-, hold⟩
      · rw [Function.update_self]
        refine (List.countP_eq_zero.mpr (fun r hr heq => ?_)).symm
        exact (hfresh r hr).1 (of_decide_eq_true heq)
      · rw [Function.update_of_ne (h.known _ _ hold).ne]
        exact h.requests _ _ hold
    · intro r hr
      obtain ⟨hne, hacc⟩ := hfresh r hr
      obtain ⟨hin, hle⟩ := h.pending r hr
      show Function.update s.inFlight account (some s.made) r.account = some r.flight ∧
        r.generation ≤ (Function.update s.flights s.made ⟨0, 0⟩ r.flight).generation
      rw [Function.update_of_ne hacc, Function.update_of_ne hne]
      exact ⟨hin, hle⟩
    · intro r hr
      obtain ⟨hne, -⟩ := hfresh r hr
      show ∃ front refusedToken since, s.log = front ++ .asked r.id r.account refusedToken :: since ∧
        (r.generation = (Function.update s.flights s.made ⟨0, 0⟩ r.flight).generation → _)
      rw [Function.update_of_ne hne]
      exact h.since r hr

/-- **A request begins**; a report leaves no older request of its account at its flight's generation. -/
theorem FlightsInv.ask (h : FlightsInv s) (hflight : s.inFlight account = some flight)
    (refusedToken : Option String) (es : List CacheEvent)
    (hes : ∀ id account refusedToken, .asked id account refusedToken ∉ es) {generation : ℕ}
    (hgeneration : generation = (s.flights flight).generation + if refusedToken = none then 0 else 1)
    (hlog : s'.log = s.log ++ .asked s.asked account refusedToken :: es) (hinFlight : s'.inFlight = s.inFlight)
    (hflights : s'.flights = Function.update s.flights flight
      ⟨(s.flights flight).requests + 1, generation⟩)
    (hmade : s'.made = s.made) (hpending : s'.pending = ⟨s.asked, account, flight, generation⟩ :: s.pending)
    (hasked : s'.asked = s.asked + 1) : FlightsInv s' := by
  refine ⟨?_, ?_, ?_, ?_, ?_, ?_⟩
  · rw [hinFlight]
    exact h.own
  · rw [hinFlight, hmade]
    exact h.known
  · rw [hinFlight, hflights, hpending]
    intro account' flight' hin
    rw [List.countP_cons]
    by_cases hsame : flight' = flight
    · rw [hsame, Function.update_self, if_pos (decide_eq_true rfl), ← h.requests account flight hflight]
    · rw [Function.update_of_ne hsame, if_neg (by simpa using fun heq => hsame heq.symm)]
      exact h.requests _ _ hin
  · rw [hinFlight, hflights, hpending]
    intro r hr
    rcases List.mem_cons.mp hr with rfl | hr
    · refine ⟨hflight, ?_⟩
      rw [Function.update_self]
    · obtain ⟨hin, hle⟩ := h.pending r hr
      refine ⟨hin, ?_⟩
      by_cases hsame : r.flight = flight
      · rw [hsame] at hle ⊢
        rw [Function.update_self, hgeneration]
        exact hle.trans (Nat.le_add_right _ _)
      · rw [Function.update_of_ne hsame]
        exact hle
  · rw [hflights, hpending, hlog]
    intro r hr
    rcases List.mem_cons.mp hr with rfl | hr
    · exact ⟨s.log, refusedToken, es, rfl, fun _ id fingerprint hmem => hes _ _ _ hmem⟩
    · obtain ⟨hin, hle⟩ := h.pending r hr
      obtain ⟨front, refusedToken', since, heq, hnone⟩ := h.since r hr
      refine ⟨front, refusedToken', since ++ .asked s.asked account refusedToken :: es,
        by rw [heq, List.append_assoc, List.cons_append], fun hgen id fingerprint hmem => ?_⟩
      by_cases hsame : r.flight = flight
      · rw [hsame, Function.update_self] at hgen
        rw [hsame] at hle
        have hgen' : r.generation = generation := hgen
        rcases List.mem_append.mp hmem with hold | hnew
        · refine hnone ?_ id fingerprint hold
          rw [hsame]
          omega
        · rcases List.mem_cons.mp hnew with hev | hev
          · -- a report has moved the generation past the older request's
            cases hev
            rw [if_neg (by simp)] at hgeneration
            omega
          · exact hes _ _ _ hev
      · rw [Function.update_of_ne hsame] at hgen
        rcases List.mem_append.mp hmem with hold | hnew
        · exact hnone hgen id fingerprint hold
        · rcases List.mem_cons.mp hnew with hev | hev
          · cases hev
            rw [hflight] at hin
            exact hsame (Option.some.inj hin).symm
          · exact hes _ _ _ hev
  · rw [hlog, hasked]
    intro id account' refusedToken' hmem
    rcases List.mem_append.mp hmem with hold | hnew
    · have := h.asked _ _ _ hold
      omega
    · rcases List.mem_cons.mp hnew with hev | hev
      · cases hev
        omega
      · exact absurd hev (hes _ _ _)

/-- A request ends; a flight leaves the map with its last one. -/
theorem FlightsInv.finish (h : FlightsInv s) {r : CacheRequest} (hr : r ∈ s.pending) : FlightsInv (s.finish r) := by
  obtain ⟨hin, -⟩ := h.pending r hr
  have hcount := h.requests _ _ hin
  have herase : (s.pending.erase r).countP (fun r' => decide (r'.flight = r.flight)) =
      (s.flights r.flight).requests - 1 := by
    rw [hcount, List.countP_erase, if_pos ⟨hr, decide_eq_true rfl⟩]
  have hother : ∀ flight', flight' ≠ r.flight →
      (s.pending.erase r).countP (fun r' => decide (r'.flight = flight')) =
        s.pending.countP (fun r' => decide (r'.flight = flight')) := by
    intro flight' hne
    rw [List.countP_erase, if_neg (fun hand => hne (of_decide_eq_true hand.2).symm), Nat.sub_zero]
  have hgeneration : ∀ flight', (Function.update s.flights r.flight
      { s.flights r.flight with requests := (s.flights r.flight).requests - 1 } flight').generation =
        (s.flights flight').generation := by
    intro flight'
    by_cases hsame : flight' = r.flight
    · rw [hsame, Function.update_self]
    · rw [Function.update_of_ne hsame]
  have hsub : ∀ account' flight', (s.finish r).inFlight account' = some flight' →
      s.inFlight account' = some flight' := by
    intro account' flight' hget
    change (if (s.flights r.flight).requests - 1 = 0 then Function.update s.inFlight r.account none
      else s.inFlight) account' = some flight' at hget
    split_ifs at hget with hlast
    · by_cases hsame : account' = r.account
      · rw [hsame, Function.update_self] at hget
        cases hget
      · rwa [Function.update_of_ne hsame] at hget
    · exact hget
  refine ⟨fun a a' f ha ha' => h.own a a' f (hsub a f ha) (hsub a' f ha'), fun a f ha => h.known a f (hsub a f ha),
    fun a f ha => ?_, fun r' hr' => ?_, fun r' hr' => ?_, h.asked⟩
  · show (Function.update s.flights r.flight _ f).requests = (s.pending.erase r).countP _
    by_cases hsame : f = r.flight
    · rw [hsame, Function.update_self, herase]
    · rw [Function.update_of_ne hsame, hother f hsame]
      exact h.requests a f (hsub a f ha)
  · have hmem : r' ∈ s.pending.erase r := hr'
    obtain ⟨hin', hle⟩ := h.pending r' (List.mem_of_mem_erase hmem)
    refine ⟨?_, ?_⟩
    · show (if (s.flights r.flight).requests - 1 = 0 then Function.update s.inFlight r.account none
        else s.inFlight) r'.account = some r'.flight
      split_ifs with hlast
      · -- the last request's flight has no other
        have hne : r'.account ≠ r.account := by
          intro hsame
          rw [hsame, hin] at hin'
          rw [hlast, List.countP_eq_zero] at herase
          exact herase r' hmem (decide_eq_true (Option.some.inj hin').symm)
        rw [Function.update_of_ne hne]
        exact hin'
      · exact hin'
    · show r'.generation ≤ (Function.update s.flights r.flight _ r'.flight).generation
      rw [hgeneration]
      exact hle
  · obtain ⟨front, refusedToken, since, heq, hnone⟩ := h.since r' (List.mem_of_mem_erase hr')
    refine ⟨front, refusedToken, since, heq, fun hgen => hnone ?_⟩
    change r'.generation = (Function.update s.flights r.flight _ r'.flight).generation at hgen
    rw [hgeneration] at hgen
    exact hgen

end Flights

/-! ## Runs -/

/-- What every step keeps. -/
structure CacheInv (o : TokenCacheOptions) (hashToken : String → String) (w : CacheRun) : Prop where
  log : LogOk (CacheEventOk o hashToken) w.cache.log
  entries : EntriesInv o hashToken w.clock w.cache.entries w.cache.log
  flights : FlightsInv w.cache

section Run

variable {o : TokenCacheOptions} {hashToken : String → String} {w : CacheRun} {s : TokenCache}
  {account : String} {now : ℤ}

theorem CacheInv.start (now : ℤ) : CacheInv o hashToken (CacheRun.start now) := by
  refine ⟨LogOk.nil, ⟨?_, ?_, OrderedMap.inOrder_empty, Nat.zero_le _⟩, ⟨?_, ?_, ?_, ?_, ?_, ?_⟩⟩
  · intro account entry token hget
    cases hget
  · intro front id account fingerprint since heq
    exact absurd heq.symm (by simp [CacheRun.start, createTokenCache])
  · intro account account' flight hin
    cases hin
  · intro account flight hin
    cases hin
  · intro account flight hin
    cases hin
  · exact fun r hr => absurd hr List.not_mem_nil
  · exact fun r hr => absurd hr List.not_mem_nil
  · exact fun id account refusedToken hmem => absurd hmem List.not_mem_nil

/-- Eviction events begin no request. -/
theorem not_asked_evicted (evicted : Option String) (id : ℕ) (account : String) (refusedToken : Option String) :
    .asked id account refusedToken ∉ evicted.toList.map CacheEvent.evicted := by
  intro hmem
  obtain ⟨account', -, heq⟩ := List.mem_map.mp hmem
  cases heq

/-- A later clock. -/
theorem EntriesInv.later {clock : ℤ} {entries : OrderedMap String TokenCacheEntry} {log : List CacheEvent}
    (h : EntriesInv o hashToken clock entries log) (hnow : clock ≤ now) :
    EntriesInv o hashToken now entries log := by
  refine ⟨fun account entry token hget htoken => ?_, h.remembered, h.order, h.few⟩
  obtain ⟨hrefused, id, storedAt, hmem, hpast, hexpires⟩ := h.held account entry token hget htoken
  exact ⟨hrefused, id, storedAt, hmem, hpast.trans hnow, hexpires⟩

/-- **A call served from the cache.** -/
theorem CacheInv.served {clock : ℤ} {refusedToken : Option String} {aborted : Bool} {token : StoredToken}
    (h : CacheInv o hashToken ⟨s, clock⟩) (hnow : clock ≤ now)
    (hserved : s.served? account refusedToken aborted now = some token) :
    CacheInv o hashToken ⟨s.note (.served account token.accessToken now), now⟩ := by
  unfold TokenCache.served? at hserved
  split_ifs at hserved with hreads
  obtain ⟨hbind, hfresh⟩ := Option.filter_eq_some_iff.mp hserved
  obtain ⟨entry, hget, htoken⟩ := Option.bind_eq_some_iff.mp hbind
  obtain ⟨hrefused, id, storedAt, hmem, hpast, hexpires⟩ := h.entries.held account entry token hget htoken
  have hlt : now < token.expiresAt := of_decide_eq_true hfresh
  refine ⟨h.log.snoc ⟨⟨id, storedAt, hmem, hpast.trans hnow, by omega⟩, ?_⟩, h.entries.quiet rfl hnow, ?_⟩
  · intro front id' fingerprint since heq hhash
    refine (h.entries.remembered front id' account fingerprint since heq).resolve_right (fun hkept => ?_)
    have hget' : (s.entries.get? account).bind TokenCacheEntry.refused = entry.refused := by
      rw [show s.entries.get? account = some entry from hget]
      rfl
    rw [← hhash, hget'] at hkept
    exact hrefused hkept
  · refine h.flights.quiet [.served account token.accessToken now] ?_ rfl rfl rfl rfl rfl rfl
    intro id' account' refusedToken' hmem'
    cases List.mem_singleton.mp hmem'

/-- **A call that asks the inner source.** -/
theorem CacheInv.ask {clock : ℤ} (refusedToken : Option String) (h : CacheInv o hashToken ⟨s, clock⟩)
    (hnow : clock ≤ now) :
    CacheInv o hashToken ⟨(((s.flightOf account).1.note
      (.asked (s.flightOf account).1.asked account refusedToken)).report o account (s.flightOf account).2
        refusedToken).request account (s.flightOf account).2, now⟩ := by
  obtain ⟨hflights, hin, hentries, hlog, hasked⟩ := FlightsInv.flightOf h.flights account
  have hkept : EntriesInv o hashToken clock (s.flightOf account).1.entries (s.flightOf account).1.log := by
    rw [hentries, hlog]
    exact h.entries
  have hlogs : LogOk (CacheEventOk o hashToken) (s.flightOf account).1.log := by
    rw [hlog]
    exact h.log
  generalize s.flightOf account = found at hflights hin hkept hlogs
  obtain ⟨s', flight⟩ := found
  have hok : LogOk (CacheEventOk o hashToken) (s'.log ++ [.asked s'.asked account refusedToken]) := by
    refine hlogs.snoc (fun account' refusedToken' hmem => ?_)
    exact lt_irrefl _ (hflights.asked _ _ _ hmem)
  cases refusedToken with
  | none =>
    refine ⟨hok, hkept.quiet rfl hnow, ?_⟩
    exact hflights.ask hin none [] (fun _ _ _ hmem => absurd hmem List.not_mem_nil) rfl rfl rfl rfl rfl rfl rfl
  | some fingerprint =>
    obtain ⟨hwritten, hlog'⟩ := (hkept.later hnow).report hok
    refine ⟨hlog', hwritten, ?_⟩
    refine hflights.ask hin (some fingerprint) _ (not_asked_evicted (s'.entries.evicts o.maxEntries account)) rfl
      (List.append_assoc _ _ _) rfl ?_ rfl ?_ rfl
    · show Function.update (Function.update s'.flights flight _) flight
        ⟨(Function.update s'.flights flight _ flight).requests + 1,
          (Function.update s'.flights flight _ flight).generation⟩ = _
      rw [Function.update_idem, Function.update_self]
      rfl
    · show (⟨s'.asked, account, flight, (Function.update s'.flights flight _ flight).generation⟩ :: s'.pending :
        List CacheRequest) = _
      rw [Function.update_self]
      rfl

/-- **An answer.** -/
theorem CacheInv.answer {clock : ℤ} (h : CacheInv o hashToken ⟨s, clock⟩) (hnow : clock ≤ now) (id : ℕ)
    (answer : InnerAnswer) : CacheInv o hashToken ⟨s.answer o hashToken id answer now, now⟩ := by
  unfold TokenCache.answer
  cases hfind : s.pending.find? (fun r => r.id = id) with
  | none => exact ⟨h.log, h.entries.later hnow, h.flights⟩
  | some r =>
    have hr := List.mem_of_find?_eq_some hfind
    have hid : r.id = id := of_decide_eq_true (List.find?_some (p := fun r : CacheRequest => decide (r.id = id)) hfind)
    obtain ⟨front, refusedToken, since, heq, hnone⟩ := h.flights.since r hr
    have hlog : s.log = front ++ .asked r.id r.account refusedToken :: since := heq
    have hnoted : LogOk (CacheEventOk o hashToken) (s.log ++ [.answered id answer]) := by
      refine h.log.snoc ⟨r.account, refusedToken, ?_⟩
      show _ ∈ s.log
      rw [hlog, hid]
      exact List.mem_append_right _ List.mem_cons_self
    have hentries : EntriesInv o hashToken now s.entries (s.log ++ [.answered id answer]) := h.entries.quiet rfl hnow
    have hflights : FlightsInv (s.note (.answered id answer)) := by
      refine h.flights.quiet [.answered id answer] ?_ rfl rfl rfl rfl rfl rfl
      intro id' account' refusedToken' hmem'
      cases List.mem_singleton.mp hmem'
    have hplain : CacheInv o hashToken ⟨(s.note (.answered id answer)).finish r, now⟩ :=
      ⟨hnoted, hentries, hflights.finish hr⟩
    cases answer with
    | failed reason => exact hplain
    | threw => exact hplain
    | ok accessToken =>
      show CacheInv o hashToken ⟨(if (s.flights r.flight).generation = r.generation then
        (s.note (.answered id (.ok accessToken))).store o hashToken id r.account accessToken now
        else s.note (.answered id (.ok accessToken))).finish r, now⟩
      split_ifs with hgeneration
      · unfold TokenCache.store
        dsimp only
        split_ifs with hrefused
        · exact hplain
        · -- the request has seen no report: its flight's generation is still its own
          have hstored : LogOk (CacheEventOk o hashToken)
              (s.log ++ [.answered id (.ok accessToken)] ++ [.stored id r.account accessToken now]) := by
            refine hnoted.snoc ⟨List.mem_append_right _ (List.mem_singleton.mpr rfl), front, refusedToken,
              since ++ [.answered id (.ok accessToken)], ?_, fun id' fingerprint hmem => ?_⟩
            · rw [hlog, hid, List.append_assoc, List.cons_append]
            · rcases List.mem_append.mp hmem with hold | hnew
              · exact hnone hgeneration.symm id' fingerprint hold
              · cases List.mem_singleton.mp hnew
          obtain ⟨hwritten, hlog'⟩ := hentries.store hrefused hstored
          refine ⟨hlog', hwritten, FlightsInv.finish ?_ hr⟩
          refine hflights.quiet (.stored id r.account accessToken now ::
            (s.entries.evicts o.maxEntries r.account).toList.map .evicted) ?_ (List.append_assoc _ _ _)
            rfl rfl rfl rfl rfl
          intro id' account' refusedToken' hmem'
          rcases List.mem_cons.mp hmem' with hev | hev
          · cases hev
          · exact not_asked_evicted _ _ _ _ hev
      · exact hplain

/-- **One step** keeps the invariant. -/
theorem CacheInv.act (h : CacheInv o hashToken w) (call : CacheCall) (hok : CacheRun.Ok w call) :
    CacheInv o hashToken (CacheRun.act o hashToken w call) := by
  cases call with
  | call account refusedToken aborted now =>
    show CacheInv o hashToken ⟨w.cache.call o account refusedToken aborted now, now⟩
    unfold TokenCache.call
    cases hserved : w.cache.served? account refusedToken aborted now with
    | some token => exact CacheInv.served h hok hserved
    | none => exact CacheInv.ask refusedToken h hok
  | answer id answer now => exact CacheInv.answer h hok id answer

/-- **The token cache**: of any run, what is served was stored less than the time to live before and is no
token its account reported refused, unless that is forgotten; no answer is stored whose request saw a report
of its account; an entry leaves for as many other accounts as the cache holds; and it holds no more. -/
theorem token_cache (o : TokenCacheOptions) (hashToken : String → String) (now : ℤ) (calls : List CacheCall)
    (hcalls : RunOk (CacheRun.act o hashToken) CacheRun.Ok (CacheRun.start now) calls) :
    let cache := (run (CacheRun.act o hashToken) (CacheRun.start now) calls).cache
    LogOk (CacheEventOk o hashToken) cache.log ∧ cache.entries.entries.length ≤ o.maxEntries := by
  have hinv := hcalls.induction (@CacheInv.start o hashToken now)
    (fun w call hok h => h.act call hok)
  exact ⟨hinv.log, hinv.entries.few⟩

end Run

/-- The fingerprint of one token. -/
def sampleHash (accessToken : String) : String :=
  if accessToken = "token-a" then "a70bf50e531ce1a817561f2f5d5b6645d4e806becf58ccc5e8cf6b8045a090a8" else ""

def sampleCacheOptions : TokenCacheOptions where
  ttlMs := 30000
  maxEntries := 1
  maxEntries_pos := by decide

/-- A token stored, served, reported refused, and asked for anew. -/
def refusedCalls : List CacheCall :=
  [.call "a" none false 0, .answer 0 (.ok "token-a") 5, .call "a" none false 10,
    .call "a" (some (sampleHash "token-a")) false 20, .call "a" none false 30]

theorem token_cache_refused :
    let cache := (run (CacheRun.act sampleCacheOptions sampleHash) (CacheRun.start 0) refusedCalls).cache
    cache.log = [.asked 0 "a" none, .answered 0 (.ok "token-a"), .stored 0 "a" "token-a" 5,
      .served "a" "token-a" 10, .asked 1 "a" (some (sampleHash "token-a")), .asked 2 "a" none] ∧
      LogOk (CacheEventOk sampleCacheOptions sampleHash) cache.log ∧ cache.entries.entries.length ≤ 1 := by
  have hcalls : RunOk (CacheRun.act sampleCacheOptions sampleHash) CacheRun.Ok (CacheRun.start 0) refusedCalls := by
    refine ⟨?_, ?_, ?_, ?_, ?_, trivial⟩
    · show (0 : ℤ) ≤ 0
      decide
    · show (0 : ℤ) ≤ 5
      decide
    · show (5 : ℤ) ≤ 10
      decide
    · show (10 : ℤ) ≤ 20
      decide
    · show (20 : ℤ) ≤ 30
      decide
  exact ⟨by decide +kernel, token_cache sampleCacheOptions sampleHash 0 refusedCalls hcalls⟩

end Binarius
