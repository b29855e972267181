import Mathlib.Tactic
import Binarius.BrokerRest.Rest
import Binarius.Worker.TradePages
import Binarius.Worker.World

/-!
# Worker.RestReconciler — an unknown intent against the broker's own trade lists
(apps/trading-worker/src/intents/rest-reconciler.ts)

It only reads; what comes of an attempt is a result.  The one thing attempts share is the map
`absentSince`, written after an attempt's last await.

* `decideIntent`: one attempt, over whatever the token source, the lists and the database answer.
* `reconcile`: its ending, with the map.
* `decideIntent_absent`, `decideIntent_found`: **what the two conclusions rest on**.
-/

namespace Binarius

open Lib

inductive TradeListStatus
  | open
  | closed
  deriving DecidableEq, Repr

structure RestReconcilerConfig where
  /-- the window on the trade's open_timestamp around the intent's submitted_at, inclusive -/
  windowBeforeMs : ℤ
  windowAfterMs : ℤ
  pageSize : ℕ
  /-- pages read per list at most -/
  maxPages : ℕ
  deriving DecidableEq, Repr

inductive AccessTokenOutcome
  | ok
  /-- isAccessTokenRefusal -/
  | refused
  | unavailable
  deriving DecidableEq, Repr

/-- What an attempt's own calls answer; `listTrades` is given the number of the request in the attempt,
from 1, the list and the offset. -/
structure AttemptAnswers where
  token : Except Unit AccessTokenOutcome
  listTrades : ℕ → TradeListStatus → ℕ → Except RestThrown (List BrokerTrade)
  linkedTradeIds : List String → Except Unit (List String)

inductive ReconcileThrown
  /-- ReconcilerInputError -/
  | input (field : String)
  | other
  deriving DecidableEq, Repr

structure WindowRead where
  /-- the list's trades inside the window -/
  trades : List BrokerTrade
  covered : Bool
  pagesRead : ℕ
  /-- the list's end is proven on its first page alone -/
  proof : Bool
  deriving DecidableEq, Repr

inductive Decision
  | result (r : ReconcileResult)
  | absent
  deriving DecidableEq, Repr

/-- `page.length === 0 || page[0].openTimestamp > page.at(-1).openTimestamp`. -/
def strictPage : List BrokerTrade → Bool
  | [] => true
  | first :: rest =>
    decide (((first :: rest).getLast (List.cons_ne_nil first rest)).openTimestamp < first.openTimestamp)

/-- REST_ERROR_REASON. -/
def restErrorReason : BrokerRestErrorCode → ReconcileUnavailableReason
  | .rateLimited => .rateLimited
  | .unauthorized => .tokenUnavailable
  | .rejected => .brokerContract
  | .contractViolation => .brokerContract
  | .unavailable => .brokerUnavailable
  | .aborted => .timeout

def unavailable (reason : ReconcileUnavailableReason) : Decision := .result (.unavailable reason)

section Attempt

variable (config : RestReconcilerConfig) (answers : AttemptAnswers) (intent : TradeIntentRow)

/-- One list, read around the window; its requests are numbered after the first `before` ones. -/
def readWindow (before : ℕ) (status : TradeListStatus) (windowStart windowEnd : UnixMs) :
    Except (PagesThrown RestThrown) WindowRead :=
  match readTradePages (fun page offset => answers.listTrades (before + page) status offset)
      config.maxPages (fun t => decide (t.openTimestamp < windowStart)) with
  | .error e => .error e
  | .ok read =>
    .ok
      { trades := read.trades.filter
          (fun t => decide (windowStart ≤ t.openTimestamp) && decide (t.openTimestamp ≤ windowEnd))
        covered := read.covered
        pagesRead := read.pagesRead
        proof := read.covered && decide (read.pagesRead = 1) &&
          decide (read.trades.map (·.id)).Nodup && strictPage read.trades &&
          read.trades.all (fun t => t.isDemo = decide (intent.mode = .demo)) }

/-- The open list, then the closed one. -/
def readLists (windowStart windowEnd : UnixMs) :
    Except (PagesThrown RestThrown) (WindowRead × WindowRead) :=
  match readWindow config answers intent 0 .open windowStart windowEnd with
  | .error e => .error e
  | .ok opened =>
    match readWindow config answers intent opened.pagesRead .closed windowStart windowEnd with
    | .error e => .error e
    | .ok closed => .ok (opened, closed)

/-- `byId.set(trade.id, trade)`: a key that is there keeps its place. -/
def setById (m : List BrokerTrade) (t : BrokerTrade) : List BrokerTrade :=
  if m.any (fun t' => t'.id = t.id) then m.map (fun t' => if t'.id = t.id then t else t') else m ++ [t]

def byId (trades : List BrokerTrade) : List BrokerTrade := trades.foldl setById []

/-- The trades of the window that are the intent's but for the amount. -/
def sameTrade (trades : List BrokerTrade) : List BrokerTrade :=
  (byId trades).filter (fun t =>
    decide (t.assetId = intent.assetId) && decide (t.action = intent.action) &&
      decide (t.isDemo = decide (intent.mode = .demo)))

def isExact (t : BrokerTrade) : Bool := normalizeDecimal t.amount = normalizeDecimal intent.amount

/-- What the reads say of the intent; `linked` is the linked ids among the candidates'. -/
def conclusion (claimedAt windowEnd : UnixMs) (opened closed : WindowRead) (linked : List String) :
    Decision :=
  let unlinked := (sameTrade intent (opened.trades ++ closed.trades)).filter
    (fun t => !linked.contains t.id)
  let exactMatches := unlinked.filter (isExact intent)
  let near := unlinked.length - exactMatches.length
  let ackMismatch := intent.lastError = some .tradeMismatch
  let covered := opened.covered && closed.covered
  match exactMatches with
  | _ :: _ :: _ => .result .ambiguous
  | [found] =>
    if covered then .result (.found found)
    else if claimedAt < windowEnd then unavailable .windowNotCovered
    else .result .ambiguous
  | [] =>
    if claimedAt < windowEnd then
      if covered then unavailable .windowOpen else unavailable .windowNotCovered
    else if 0 < near ∨ ackMismatch then .result .ambiguous
    else if intent.mode = .demo ∧ opened.proof ∧ closed.proof then .absent
    else .result .unresolved

/-- One attempt. -/
def decideIntent (submittedAt claimedAt : UnixMs) : Except ReconcileThrown Decision :=
  let windowStart := submittedAt - config.windowBeforeMs
  let windowEnd := submittedAt + config.windowAfterMs
  match answers.token with
  | .error _ => .error .other
  | .ok .refused => .ok (unavailable .tokenUnavailable)
  | .ok .unavailable => .ok (unavailable .backendUnavailable)
  | .ok .ok =>
    match readLists config answers intent windowStart windowEnd with
    | .error (.violation _) => .ok (unavailable .brokerContract)
    | .error (.fetch (.rest e)) => .ok (unavailable (restErrorReason e.code))
    | .error (.fetch .other) => .error .other
    | .ok (opened, closed) =>
      match (sameTrade intent (opened.trades ++ closed.trades)).map (·.id) with
      | [] => .ok (conclusion intent claimedAt windowEnd opened closed [])
      | ids =>
        match answers.linkedTradeIds ids with
        | .error _ => .error .other
        | .ok linked => .ok (conclusion intent claimedAt windowEnd opened closed linked)

end Attempt

/-- intent id → the claim of the attempt that first proved absence. -/
abbrev AbsentSince := IntentId → Option UnixMs

/-- The same claim seen again is not a second attempt. -/
def confirmAbsence (absentSince : AbsentSince) (id : IntentId) (claimedAt : UnixMs) :
    ReconcileResult × AbsentSince :=
  match absentSince id with
  | some first =>
    if claimedAt ≤ first then
      (.unavailable .absenceUnconfirmed, Function.update absentSince id (some claimedAt))
    else (.notFound, Function.update absentSince id none)
  | none => (.unavailable .absenceUnconfirmed, Function.update absentSince id (some claimedAt))

/-- What an attempt leaves, by its decision and whether its signal is aborted by then. -/
def endAttempt (absentSince : AbsentSince) (id : IntentId) (claimedAt : UnixMs) (aborted : Bool) :
    Except ReconcileThrown Decision → Except ReconcileThrown ReconcileResult × AbsentSince
  | .error e => (.error e, if aborted then absentSince else Function.update absentSince id none)
  | .ok d =>
    if aborted then (.ok (.unavailable .timeout), absentSince)
    else
      match d with
      | .absent =>
        let (r, absentSince) := confirmAbsence absentSince id claimedAt
        (.ok r, absentSince)
      | .result r => (.ok r, Function.update absentSince id none)

/-- A call of `reconcile`: a row without its two instants is refused before the attempt. -/
def reconcile (config : RestReconcilerConfig) (answers : AttemptAnswers) (intent : TradeIntentRow)
    (aborted : Bool) (absentSince : AbsentSince) :
    Except ReconcileThrown ReconcileResult × AbsentSince :=
  match intent.submittedAt, intent.reconcileClaimedAt with
  | none, _ => (.error (.input "submittedAt"), absentSince)
  | some _, none => (.error (.input "reconcileClaimedAt"), absentSince)
  | some submittedAt, some claimedAt =>
    endAttempt absentSince intent.id claimedAt aborted
      (decideIntent config answers intent submittedAt claimedAt)

/-! ## What a decision rests on -/

section Decisions

variable {config : RestReconcilerConfig} {answers : AttemptAnswers} {intent : TradeIntentRow}
  {submittedAt claimedAt : UnixMs}

/-- The candidates of the two reads. -/
def exactMatches (intent : TradeIntentRow) (opened closed : WindowRead) (linked : List String) :
    List BrokerTrade :=
  ((sameTrade intent (opened.trades ++ closed.trades)).filter (fun t => !linked.contains t.id)).filter
    (isExact intent)

theorem conclusion_absent {windowEnd : UnixMs} {opened closed : WindowRead} {linked : List String}
    (h : conclusion intent claimedAt windowEnd opened closed linked = .absent) :
    exactMatches intent opened closed linked = [] ∧ windowEnd ≤ claimedAt ∧ intent.mode = .demo ∧
      opened.proof = true ∧ closed.proof = true := by
  unfold conclusion at h
  simp only [] at h
  split at h
  · simp at h
  · split at h
    · simp at h
    split at h
    · simp [unavailable] at h
    · simp at h
  · rename_i hnone
    split at h
    · split at h
      · simp [unavailable] at h
      · simp [unavailable] at h
    rename_i hclaim
    split at h
    · simp at h
    split at h
    · rename_i hproof
      exact ⟨hnone, not_lt.mp hclaim, hproof.1, hproof.2.1, hproof.2.2⟩
    · simp at h

theorem conclusion_found {windowEnd : UnixMs} {opened closed : WindowRead} {linked : List String}
    {t : BrokerTrade} (h : conclusion intent claimedAt windowEnd opened closed linked =
      .result (.found t)) :
    exactMatches intent opened closed linked = [t] ∧ opened.covered = true ∧
      closed.covered = true := by
  unfold conclusion at h
  simp only [] at h
  split at h
  · simp at h
  · rename_i found hone
    split at h
    · rename_i hcovered
      obtain rfl : found = t := by simpa using h
      rw [Bool.and_eq_true] at hcovered
      exact ⟨hone, hcovered.1, hcovered.2⟩
    split at h
    · simp [unavailable] at h
    · simp at h
  · split at h
    · split at h
      · simp [unavailable] at h
      · simp [unavailable] at h
    split at h
    · simp at h
    split at h
    · simp at h
    · simp at h

/-- What the database answered about the candidates: nothing was asked when there is none. -/
def Linked (answers : AttemptAnswers) (intent : TradeIntentRow) (opened closed : WindowRead)
    (linked : List String) : Prop :=
  ((sameTrade intent (opened.trades ++ closed.trades)).map (·.id) = [] ∧ linked = []) ∨
    answers.linkedTradeIds ((sameTrade intent (opened.trades ++ closed.trades)).map (·.id)) = .ok linked

/-- A decision that is no refusal comes from two whole reads. -/
theorem decideIntent_ok {d : Decision} (h : decideIntent config answers intent submittedAt claimedAt =
      .ok d) (hd : ∀ reason, d ≠ unavailable reason) :
    ∃ opened closed linked,
      readLists config answers intent (submittedAt - config.windowBeforeMs)
        (submittedAt + config.windowAfterMs) = .ok (opened, closed) ∧
      Linked answers intent opened closed linked ∧
      conclusion intent claimedAt (submittedAt + config.windowAfterMs) opened closed linked = d := by
  unfold decideIntent at h
  simp only [] at h
  split at h
  · simp at h
  · exact absurd (Except.ok.inj h).symm (hd _)
  · exact absurd (Except.ok.inj h).symm (hd _)
  · split at h
    · exact absurd (Except.ok.inj h).symm (hd _)
    · exact absurd (Except.ok.inj h).symm (hd _)
    · simp at h
    · rename_i opened closed hreads
      split at h
      · rename_i hnone
        exact ⟨opened, closed, [], hreads, .inl ⟨hnone, rfl⟩, Except.ok.inj h⟩
      · split at h
        · simp at h
        · rename_i linked hlinked
          exact ⟨opened, closed, linked, hreads, .inr hlinked, Except.ok.inj h⟩

/-- No attempt answers `not_found` by itself: only absence leads to it. -/
theorem conclusion_ne_notFound {windowEnd : UnixMs} {opened closed : WindowRead} {linked : List String} :
    conclusion intent claimedAt windowEnd opened closed linked ≠ .result .notFound := by
  intro h
  unfold conclusion at h
  simp only [] at h
  split at h
  · simp at h
  · split at h
    · simp at h
    split at h
    · simp [unavailable] at h
    · simp at h
  · split at h
    · split at h
      · simp [unavailable] at h
      · simp [unavailable] at h
    split at h
    · simp at h
    split at h
    · simp at h
    · simp at h

theorem decideIntent_ne_notFound :
    decideIntent config answers intent submittedAt claimedAt ≠ .ok (.result .notFound) := by
  intro h
  obtain ⟨_, _, _, _, _, hconclusion⟩ := decideIntent_ok h (by simp [unavailable])
  exact conclusion_ne_notFound hconclusion

/-- **Absence rests on** two first-page proofs, no exact match and a closed window. -/
theorem decideIntent_absent
    (h : decideIntent config answers intent submittedAt claimedAt = .ok .absent) :
    submittedAt + config.windowAfterMs ≤ claimedAt ∧ intent.mode = .demo ∧
      ∃ opened closed linked,
        readLists config answers intent (submittedAt - config.windowBeforeMs)
          (submittedAt + config.windowAfterMs) = .ok (opened, closed) ∧
        Linked answers intent opened closed linked ∧
        exactMatches intent opened closed linked = [] ∧ opened.proof = true ∧ closed.proof = true := by
  obtain ⟨opened, closed, linked, hreads, hlinked, hconclusion⟩ :=
    decideIntent_ok h (by simp [unavailable])
  obtain ⟨hnone, hclaim, hmode, hproof, hproof'⟩ := conclusion_absent hconclusion
  exact ⟨hclaim, hmode, opened, closed, linked, hreads, hlinked, hnone, hproof, hproof'⟩

/-- **A found trade rests on** two covered reads with one exact match. -/
theorem decideIntent_found {t : BrokerTrade}
    (h : decideIntent config answers intent submittedAt claimedAt = .ok (.result (.found t))) :
    ∃ opened closed linked,
      readLists config answers intent (submittedAt - config.windowBeforeMs)
        (submittedAt + config.windowAfterMs) = .ok (opened, closed) ∧
      Linked answers intent opened closed linked ∧
      exactMatches intent opened closed linked = [t] ∧ opened.covered = true ∧
        closed.covered = true := by
  obtain ⟨opened, closed, linked, hreads, hlinked, hconclusion⟩ :=
    decideIntent_ok h (by simp [unavailable])
  exact ⟨opened, closed, linked, hreads, hlinked, conclusion_found hconclusion⟩

/-- The two reads of an attempt. -/
theorem readLists_ok {windowStart windowEnd : UnixMs} {opened closed : WindowRead}
    (h : readLists config answers intent windowStart windowEnd = .ok (opened, closed)) :
    readWindow config answers intent 0 .open windowStart windowEnd = .ok opened ∧
      readWindow config answers intent opened.pagesRead .closed windowStart windowEnd = .ok closed := by
  unfold readLists at h
  split at h
  · simp at h
  rename_i o ho
  split at h
  · simp at h
  · rename_i c hc
    obtain ⟨rfl, rfl⟩ := Prod.mk.injEq _ _ _ _ ▸ Except.ok.inj h
    exact ⟨ho, hc⟩

theorem readWindow_ok {before : ℕ} {status : TradeListStatus} {windowStart windowEnd : UnixMs}
    {w : WindowRead} (h : readWindow config answers intent before status windowStart windowEnd = .ok w) :
    ∃ read, readTradePages (fun page offset => answers.listTrades (before + page) status offset)
        config.maxPages (fun t => decide (t.openTimestamp < windowStart)) = .ok read ∧
      (∀ t, t ∈ w.trades ↔ t ∈ read.trades ∧ windowStart ≤ t.openTimestamp ∧
        t.openTimestamp ≤ windowEnd) ∧
      w.covered = read.covered ∧ w.pagesRead = read.pagesRead ∧
      (w.proof = true → read.covered = true ∧ read.pagesRead = 1) := by
  unfold readWindow at h
  split at h
  · simp at h
  rename_i read hread
  obtain rfl := Except.ok.inj h
  refine ⟨read, hread, ?_, rfl, rfl, ?_⟩
  · intro t
    simp [List.mem_filter]
  · intro hproof
    simp only [Bool.and_eq_true, decide_eq_true_eq] at hproof
    exact ⟨hproof.1.1.1.1, hproof.1.1.1.2⟩

/-! ### The candidates -/

theorem mem_setById {m : List BrokerTrade} {t x : BrokerTrade} (h : x ∈ setById m t) :
    x ∈ m ∨ x = t := by
  unfold setById at h
  split at h
  · obtain ⟨y, hy, rfl⟩ := List.mem_map.mp h
    split
    · exact .inr rfl
    · exact .inl hy
  · rcases List.mem_append.mp h with h | h
    · exact .inl h
    · exact .inr (List.mem_singleton.mp h)

theorem hasId_setById_self (m : List BrokerTrade) (t : BrokerTrade) : HasId (setById m t) t.id := by
  unfold setById
  split
  · rename_i hany
    obtain ⟨y, hy, hid⟩ := List.any_eq_true.mp hany
    have hid' : y.id = t.id := by simpa using hid
    exact ⟨t, List.mem_map.mpr ⟨y, hy, if_pos hid'⟩, rfl⟩
  · exact ⟨t, List.mem_append_right _ (List.mem_singleton.mpr rfl), rfl⟩

theorem HasId.setById {m : List BrokerTrade} {id : String} (h : HasId m id) (t : BrokerTrade) :
    HasId (setById m t) id := by
  obtain ⟨x, hx, rfl⟩ := h
  by_cases hid : x.id = t.id
  · rw [hid]
    exact hasId_setById_self m t
  · unfold Binarius.setById
    split
    · exact ⟨x, List.mem_map.mpr ⟨x, hx, if_neg hid⟩, rfl⟩
    · exact ⟨x, List.mem_append_left _ hx, rfl⟩

theorem mem_foldl_setById {l m : List BrokerTrade} {x : BrokerTrade} (h : x ∈ l.foldl setById m) :
    x ∈ m ∨ x ∈ l := by
  induction l generalizing m with
  | nil => exact .inl h
  | cons t l ih =>
    rcases ih h with hm | hl
    · rcases mem_setById hm with hm | rfl
      · exact .inl hm
      · exact .inr List.mem_cons_self
    · exact .inr (List.mem_cons_of_mem _ hl)

theorem HasId.foldl_setById {l m : List BrokerTrade} {id : String} (h : HasId m id ∨ HasId l id) :
    HasId (l.foldl Binarius.setById m) id := by
  induction l generalizing m with
  | nil =>
    rcases h with h | ⟨x, hx, _⟩
    · exact h
    · simp at hx
  | cons t l ih =>
    refine ih ?_
    rcases h with h | ⟨x, hx, rfl⟩
    · exact .inl (h.setById t)
    · rcases List.mem_cons.mp hx with rfl | hx
      · exact .inl (hasId_setById_self m x)
      · exact .inr ⟨x, hx, rfl⟩

/-- The map holds trades of the reads, and one of every id read. -/
theorem mem_of_mem_byId {l : List BrokerTrade} {x : BrokerTrade} (h : x ∈ byId l) : x ∈ l := by
  rcases mem_foldl_setById h with hnil | hl
  · simp at hnil
  · exact hl

theorem hasId_byId {l : List BrokerTrade} {id : String} (h : HasId l id) : HasId (byId l) id :=
  HasId.foldl_setById (.inr h)

end Decisions

end Binarius
