import Mathlib.Tactic
import Binarius.Stake.Bounds
import Binarius.Shared.SessionSettings
import Binarius.Backend.ProfitSigns

/-!
# Backend.StepParity — the step shown, the step traded and the repeat step

One history is folded three times: `sessionTradeSteps` numbers its trades for the messages, the sizer
counts the losses in a row, `sessionProgress` counts trades or wins.

* `sinceWin`: the results since the last win; `sinceWin_snoc` is what one more trade does to it.
* `sessionTradeStepsFrom_snoc`, `position_eq`: **the position of the next trade**, by the results before it.
* `readHistory_results`: **the sizer's losses in a row** are the losses among them.
* `step_parity`: the three agree; `repeat_parity`: so does the driver's repeat step.
-/

namespace Binarius

open Lib

/-! ## The results since the last win -/

/-- Newest first. -/
def sinceWin (results : List SessionTradeResult) : List SessionTradeResult :=
  results.reverse.takeWhile (fun r => r ≠ .won)

def tiesSinceWin (results : List SessionTradeResult) : ℕ := (sinceWin results).count .tied

theorem sinceWin_snoc (results : List SessionTradeResult) (r : SessionTradeResult) :
    sinceWin (results ++ [r]) = if r = .won then [] else r :: sinceWin results := by
  rw [sinceWin, List.reverse_append, List.reverse_singleton, List.singleton_append, List.takeWhile_cons]
  cases r <;> rfl

theorem sinceWin_count (results : List SessionTradeResult) :
    (sinceWin results).length = (sinceWin results).count .lost + (sinceWin results).count .tied := by
  induction results using List.reverseRecOn with
  | nil => rfl
  | append_singleton results r ih =>
    rw [sinceWin_snoc]
    cases r with
    | won => rfl
    | lost =>
      rw [if_neg (by decide), List.length_cons, List.count_cons_self, List.count_cons_of_ne (by decide), ih]
      omega
    | tied =>
      rw [if_neg (by decide), List.length_cons, List.count_cons_self, List.count_cons_of_ne (by decide), ih]
      omega

/-! ## The position of a trade -/

/-- The loop's two variables, after some results. -/
structure StepCounts where
  tradesSinceWin : ℕ
  cycle : ℕ
  deriving DecidableEq, Repr

/-- What the next trade is given. -/
def StepCounts.next (martingale : Bool) (s : StepCounts) : SessionTradeStep :=
  let step := if martingale then s.tradesSinceWin + 1 else 1
  { cycle := if step = 1 then s.cycle + 1 else s.cycle, step }

/-- What its result does to them. -/
def StepCounts.after (martingale : Bool) (s : StepCounts) (r : SessionTradeResult) : StepCounts where
  tradesSinceWin := if r = .won then 0 else s.tradesSinceWin + 1
  cycle := (s.next martingale).cycle

theorem sessionTradeStepsFrom_snoc (martingale : Bool) (s : StepCounts) (results : List SessionTradeResult)
    (r : SessionTradeResult) :
    sessionTradeStepsFrom martingale s.tradesSinceWin s.cycle (results ++ [r]) =
      sessionTradeStepsFrom martingale s.tradesSinceWin s.cycle results ++
        [(results.foldl (StepCounts.after martingale) s).next martingale] := by
  induction results generalizing s with
  | nil => rfl
  | cons r' results ih =>
    have htail := ih (s.after martingale r')
    rw [List.foldl_cons, List.cons_append]
    show _ :: sessionTradeStepsFrom martingale (s.after martingale r').tradesSinceWin
      (s.after martingale r').cycle (results ++ [r]) = _
    rw [htail]
    rfl

/-- The loop's variables under martingale: the trades since the last win, and the cycles begun. -/
theorem counts_martingale (results : List SessionTradeResult) :
    results.foldl (StepCounts.after true) ⟨0, 0⟩ =
      ⟨(sinceWin results).length, results.count .won + if sinceWin results = [] then 0 else 1⟩ := by
  induction results using List.reverseRecOn with
  | nil => rfl
  | append_singleton results r ih =>
    rw [List.foldl_append, List.foldl_cons, List.foldl_nil, ih, sinceWin_snoc, List.count_append]
    cases hsince : sinceWin results with
    | nil => cases r <;> rfl
    | cons r' since => cases r <;> rfl

theorem counts_fixed (results : List SessionTradeResult) :
    (results.foldl (StepCounts.after false) ⟨0, 0⟩).cycle = results.length := by
  induction results using List.reverseRecOn with
  | nil => rfl
  | append_singleton results r ih =>
    rw [List.foldl_append, List.foldl_cons, List.foldl_nil, List.length_append, List.length_singleton, ← ih]
    rfl

/-- The position of the next trade: under martingale its number within its cycle, which a win ends; under
fixed step 1 of the next cycle. -/
def position (strategy : StakeStrategy) (results : List SessionTradeResult) : SessionTradeStep :=
  if strategy.isMartingale then
    { cycle := results.count .won + 1, step := (sinceWin results).length + 1 }
  else
    { cycle := results.length + 1, step := 1 }

theorem position_eq (strategy : StakeStrategy) (results : List SessionTradeResult) :
    (results.foldl (StepCounts.after strategy.isMartingale) ⟨0, 0⟩).next strategy.isMartingale =
      position strategy results := by
  unfold position
  cases strategy with
  | fixed =>
    have hcycle := counts_fixed results
    show SessionTradeStep.mk ((results.foldl (StepCounts.after false) ⟨0, 0⟩).cycle + 1) 1 = _
    rw [hcycle]
    rfl
  | martingale limits =>
    show (results.foldl (StepCounts.after true) ⟨0, 0⟩).next true = _
    rw [counts_martingale]
    cases sinceWin results <;> rfl

theorem sessionTradeSteps_snoc (strategy : StakeStrategy) (results : List SessionTradeResult)
    (r : SessionTradeResult) : sessionTradeSteps (results ++ [r]) strategy =
      sessionTradeSteps results strategy ++ [position strategy results] := by
  rw [← position_eq]
  exact sessionTradeStepsFrom_snoc strategy.isMartingale ⟨0, 0⟩ results r

theorem sessionNextStep_eq (strategy : StakeStrategy) (results : List SessionTradeResult) :
    sessionNextStep results strategy = .ok (position strategy results) := by
  rw [sessionNextStep, sessionTradeSteps_snoc, List.getLast?_concat]

theorem sessionTradeSteps_length (strategy : StakeStrategy) (results : List SessionTradeResult) :
    (sessionTradeSteps results strategy).length = results.length := by
  induction results using List.reverseRecOn with
  | nil => rfl
  | append_singleton results r ih =>
    rw [sessionTradeSteps_snoc, List.length_append, List.length_append, ih]
    rfl

/-- **A trade's position is that of the results before it**: its own does not matter. -/
theorem sessionTradeSteps_getElem? (strategy : StakeStrategy) {results : List SessionTradeResult} {i : ℕ}
    (hi : i < results.length) :
    (sessionTradeSteps results strategy)[i]? = some (position strategy (results.take i)) := by
  induction results using List.reverseRecOn with
  | nil => exact absurd hi (Nat.not_lt_zero i)
  | append_singleton results r ih =>
    rw [sessionTradeSteps_snoc]
    by_cases hold : i < results.length
    · rw [List.getElem?_append_left (by rw [sessionTradeSteps_length]; exact hold), ih hold,
        List.take_append_of_le_length hold.le]
    · rw [List.length_append, List.length_singleton] at hi
      obtain rfl : i = results.length := by omega
      rw [List.take_left', ← sessionTradeSteps_length strategy, List.getElem?_concat_length]
      rfl

/-! ## The sizer's history -/

/-- What the messages name a trade of the history. -/
def SessionTrade.result? : SessionTrade → Option SessionTradeResult
  | .settled _ profit => some (resultOf profit)
  | _ => none

/-- The settled trades, in order. -/
def resultsOf (history : List SessionTrade) : List SessionTradeResult := history.filterMap SessionTrade.result?

/-- The trades that have a result or never will. -/
def resolvedTrades (history : List SessionTrade) : List SessionTrade :=
  history.filter (fun trade => trade ≠ .unresolved)

theorem resultsOf_resolved (history : List SessionTrade) :
    resultsOf (resolvedTrades history) = resultsOf history := by
  unfold resultsOf resolvedTrades
  rw [List.filterMap_filter]
  refine List.filterMap_congr (fun trade _ => ?_)
  cases trade <;> rfl

/-- A settled trade the sizer reads has a profit that parses. -/
theorem readTrade_parsed {fold fold' : HistoryFold} {stake profit : DecimalString} {index : ℕ}
    (h : readTrade fold (.settled stake profit, index) = .ok fold') :
    parseAmount profit = some (SessionTrade.settled stake profit).profit := by
  unfold readTrade at h
  simp only at h
  split at h
  · exact nomatch h
  split at h
  · exact nomatch h
  · rename_i value hvalue
    rw [SessionTrade.profit, hvalue]
    rfl

/-- **The sizer's losses in a row** are the losses since the last win. -/
theorem foldHistory_results {history : List SessionTrade} {fold : HistoryFold}
    (h : foldHistory history = .ok fold) :
    consecutiveLosses history = (sinceWin (resultsOf history)).count .lost := by
  induction history using List.reverseRecOn generalizing fold with
  | nil => rfl
  | append_singleton history trade ih =>
    rw [foldHistory_snoc] at h
    cases hf : foldHistory history with
    | error stop =>
      rw [hf] at h
      exact nomatch h
    | ok before =>
      rw [hf] at h
      have hsnoc : resultsOf (history ++ [trade]) = resultsOf history ++ trade.result?.toList := by
        rw [resultsOf, List.filterMap_append, resultsOf]
        cases trade <;> rfl
      rw [consecutiveLosses_snoc, ih hf, hsnoc]
      cases trade with
      | rejected =>
        rw [show SessionTrade.rejected.result?.toList = [] from rfl, List.append_nil]
        rfl
      | unresolved =>
        have hread : readTrade before (.unresolved, history.length) = .ok fold := h
        exact absurd rfl (readTrade_ok hread).1
      | settled stake profit =>
        have hresult := resultOf_eq (readTrade_parsed h)
        rw [show (SessionTrade.settled stake profit).result?.toList = [resultOf profit] from rfl, hresult,
          resultOfAmount, sinceWin_snoc]
        by_cases hwon : 0 < (SessionTrade.settled stake profit).profit
        · rw [if_pos hwon, if_pos hwon, if_pos rfl, List.count_nil]
        rw [if_neg hwon, if_neg hwon]
        by_cases hlost : (SessionTrade.settled stake profit).profit < 0
        · rw [if_pos hlost, if_pos hlost, if_neg (by decide), List.count_cons_self]
        · rw [if_neg hlost, if_neg hlost, if_neg (by decide), List.count_cons_of_ne (by decide)]

theorem readHistory_results {history : List SessionTrade} {ledger : StakeLedger}
    (h : readHistory history = .ok ledger) :
    ledger.consecutiveLosses = (sinceWin (resultsOf history)).count .lost ∧ resolvedTrades history = history := by
  obtain ⟨hall, -, hlosses, -⟩ := readHistory_ok h
  refine ⟨?_, List.filter_eq_self.mpr (fun trade ht => decide_eq_true (hall trade ht))⟩
  unfold readHistory at h
  cases hf : foldHistory history with
  | error stop =>
    rw [hf] at h
    exact nomatch h
  | ok fold => rw [hlosses, foldHistory_results hf]

/-! ## The sizer's step -/

theorem createStakeSizer_strategy {params : StakeParams} {sizer : StakeSizer}
    (h : createStakeSizer params = .ok sizer) : sizer.martingale.isSome = params.strategy.isMartingale := by
  unfold createStakeSizer at h
  simp only [bind, Except.bind] at h
  split at h
  · exact nomatch h
  split at h
  · exact nomatch h
  cases hstrategy : params.strategy with
  | fixed =>
    rw [hstrategy] at h
    obtain rfl := Except.ok.inj h
    rfl
  | martingale limits =>
    rw [hstrategy] at h
    simp only at h
    cases hmax : requireAmount limits.maxStake with
    | error e =>
      rw [hmax] at h
      exact nomatch h
    | ok maxStake =>
      cases hloss : requireAmount limits.maxSessionLoss with
      | error e =>
        rw [hmax, hloss] at h
        exact nomatch h
      | ok maxSessionLoss =>
        rw [hmax, hloss] at h
        obtain rfl := Except.ok.inj h
        rfl

/-- The features of a decision that has them. -/
def StakeDecision.features? : StakeDecision → Option StakeFeatures
  | .stake _ _ features => some features
  | .limitStop _ features _ => some features
  | .dataStop .. => none

section Features

variable {sizer : StakeSizer} {input : StakeInput} {features f : StakeFeatures} {decision : StakeDecision}

theorem accountCheck_features {balance : ℤ × ℤ} {candidate : ℤ}
    (h : sizer.accountCheck input balance features candidate = .ok decision)
    (hf : decision.features? = some f) : f = features := by
  unfold StakeSizer.accountCheck at h
  obtain ⟨text, htext⟩ := formatAmount_ok candidate
  simp only [bind, Except.bind, htext] at h
  split at h
  · obtain rfl := Except.ok.inj h
    exact (Option.some.inj hf).symm
  split at h
  · obtain rfl := Except.ok.inj h
    exact (Option.some.inj hf).symm
  split at h
  · exact nomatch h
  · obtain rfl := Except.ok.inj h
    exact (Option.some.inj hf).symm

theorem martingaleCandidate_features {parsed : ParsedLimits} {ledger : StakeLedger}
    (h : sizer.martingaleCandidate parsed input ledger features = .ok (.error decision))
    (hf : decision.features? = some f) : f = features := by
  have hstop : ∀ stop, Except.ok (ε := StakeError) (Except.error (α := ℤ)
      (StakeDecision.limitStop sizer.version features stop)) = .ok (.error decision) → f = features := by
    intro stop heq
    obtain rfl := Except.error.inj (Except.ok.inj heq)
    exact (Option.some.inj hf).symm
  unfold StakeSizer.martingaleCandidate at h
  simp only at h
  split at h
  · exact hstop _ h
  split at h
  · exact hstop _ h
  split at h
  · obtain rfl := Except.error.inj (Except.ok.inj h)
    exact nomatch hf
  rename_i payoutScaled _
  cases hcandidate : sizer.stepStake ledger features.step payoutScaled with
  | error e =>
    rw [hcandidate] at h
    exact nomatch h
  | ok candidate =>
    obtain ⟨text, htext⟩ := formatAmount_ok candidate
    rw [hcandidate] at h
    simp only [bind, Except.bind, htext] at h
    split at h
    · exact hstop _ h
    split at h
    · exact hstop _ h
    · exact nomatch Except.ok.inj h

/-- **The step of a decision** is the ledger's. -/
theorem next_features (h : sizer.next input = .ok decision) (hf : decision.features? = some f) :
    ∃ ledger, readHistory input.history = .ok ledger ∧ f.step = sizer.step ledger := by
  unfold StakeSizer.next at h
  simp only [bind, Except.bind] at h
  split at h
  · exact nomatch h
  cases hhistory : readHistory input.history with
  | error stop =>
    rw [hhistory] at h
    obtain rfl := Except.ok.inj h
    exact nomatch hf
  | ok ledger =>
    rw [hhistory] at h
    refine ⟨ledger, rfl, ?_⟩
    cases hbalance : readBalance input with
    | error stop =>
      rw [hbalance] at h
      obtain rfl := Except.ok.inj h
      exact nomatch hf
    | ok balance =>
      rw [hbalance] at h
      simp only at h
      split at h
      · exact nomatch h
      rename_i features hfeatures
      obtain ⟨features', hfeatures', hstep⟩ := features_ok sizer ledger _
      rw [hfeatures'] at hfeatures
      obtain rfl := Except.ok.inj hfeatures
      rw [← hstep]
      cases hmartingale : sizer.martingale with
      | none =>
        rw [hmartingale] at h
        rw [accountCheck_features h hf]
      | some parsed =>
        rw [hmartingale] at h
        simp only at h
        split at h
        · exact nomatch h
        · split at h
          · rename_i hcandidate
            obtain rfl := Except.ok.inj h
            rw [martingaleCandidate_features hcandidate hf]
          · rw [accountCheck_features h hf]

end Features

/-! ## The step shown and the step traded -/

def SessionTrade.isSettled : SessionTrade → Bool
  | .settled .. => true
  | _ => false

def SessionTrade.isWon : SessionTrade → Bool
  | .settled _ profit => isWin (some profit)
  | _ => false

theorem resultOf_won_iff (profit : DecimalString) : resultOf profit = .won ↔ isWin (some profit) = true := by
  unfold resultOf
  split_ifs with hwin hlost
  · exact ⟨fun _ => hwin, fun _ => rfl⟩
  · exact ⟨(fun h => nomatch h), fun h => absurd h hwin⟩
  · exact ⟨(fun h => nomatch h), fun h => absurd h hwin⟩

/-- The counts of the settled trades and of the wins, as the progress reads them. -/
theorem resultsOf_counts (history : List SessionTrade) :
    (resultsOf history).length = history.countP SessionTrade.isSettled ∧
      (resultsOf history).count .won = history.countP SessionTrade.isWon := by
  induction history with
  | nil => exact ⟨rfl, rfl⟩
  | cons trade history ih =>
    obtain ⟨hlength, hwon⟩ := ih
    cases trade with
    | rejected => exact ⟨hlength, hwon⟩
    | unresolved => exact ⟨hlength, hwon⟩
    | settled stake profit =>
      have hcons : resultsOf (.settled stake profit :: history) = resultOf profit :: resultsOf history := rfl
      rw [hcons, List.countP_cons_of_pos rfl, List.length_cons, hlength]
      refine ⟨rfl, ?_⟩
      by_cases hwin : (SessionTrade.settled stake profit).isWon = true
      · rw [(resultOf_won_iff profit).mpr hwin, List.count_cons_self, List.countP_cons_of_pos hwin, hwon]
      · have hne : resultOf profit ≠ .won := fun h => hwin ((resultOf_won_iff profit).mp h)
        rw [List.count_cons_of_ne hne, List.countP_cons_of_neg hwin, hwon]

theorem StakeSizer.step_eq {sizer : StakeSizer} {params : StakeParams}
    (h : createStakeSizer params = .ok sizer) (ledger : StakeLedger) :
    sizer.step ledger = if params.strategy.isMartingale then ledger.consecutiveLosses + 1 else 1 := by
  rw [← createStakeSizer_strategy h, StakeSizer.step]
  cases sizer.martingale <;> rfl

/-- **The step shown and the step traded agree.**  Over every history: the next trade's step is the
sizer's and, under martingale, the ties since the last win; its cycle is the one after those done; and a
trade's position is that of the results before it. -/
theorem step_parity {settings : StoredSettings} {sizer : StakeSizer}
    (hsizer : createStakeSizer settings.stakeParams = .ok sizer) :
    let strategy := settings.stakeParams.strategy
    (∀ history ledger, readHistory (resolvedTrades history) = .ok ledger →
      ∃ next, sessionNextStep (resultsOf history) strategy = .ok next ∧
        next.step = if strategy.isMartingale then sizer.step ledger + tiesSinceWin (resultsOf history) else 1) ∧
    (∀ input decision features, sizer.next input = .ok decision → decision.features? = some features →
      ∃ next, sessionNextStep (resultsOf input.history) strategy = .ok next ∧ next.step = features.step +
        if strategy.isMartingale then tiesSinceWin (resultsOf input.history) else 0) ∧
    (settings.countsCycles = true → ∀ history,
      ∃ next, sessionNextStep (resultsOf history) strategy = .ok next ∧ next.cycle =
        (settings.progress (history.countP SessionTrade.isSettled) (history.countP SessionTrade.isWon)).done + 1) ∧
    ∀ (results : List SessionTradeResult) (i : ℕ), i < results.length →
      ∃ next, sessionNextStep (results.take i) strategy = .ok next ∧
        (sessionTradeSteps results strategy)[i]? = some next := by
  intro strategy
  have hshown : ∀ history ledger, readHistory (resolvedTrades history) = .ok ledger →
      (position strategy (resultsOf history)).step =
        if strategy.isMartingale then sizer.step ledger + tiesSinceWin (resultsOf history) else 1 := by
    intro history ledger hread
    have hlosses := (readHistory_results hread).1
    rw [resultsOf_resolved] at hlosses
    rw [StakeSizer.step_eq hsizer, position]
    by_cases hmartingale : strategy.isMartingale = true
    · rw [if_pos hmartingale, if_pos hmartingale, if_pos hmartingale, hlosses, tiesSinceWin]
      show (sinceWin (resultsOf history)).length + 1 = _
      rw [sinceWin_count]
      omega
    · rw [if_neg hmartingale, if_neg hmartingale]
  refine ⟨fun history ledger hread => ⟨_, sessionNextStep_eq _ _, hshown history ledger hread⟩,
    fun input decision features hnext hfeatures => ⟨_, sessionNextStep_eq _ _, ?_⟩,
    fun hcycles history => ⟨_, sessionNextStep_eq _ _, ?_⟩,
    fun results i hi => ⟨_, sessionNextStep_eq _ _, sessionTradeSteps_getElem? strategy hi⟩⟩
  · obtain ⟨ledger, hread, hstep⟩ := next_features hnext hfeatures
    have hresolved : readHistory (resolvedTrades input.history) = .ok ledger := by
      rw [(readHistory_results hread).2]
      exact hread
    rw [hshown input.history ledger hresolved, hstep]
    by_cases hmartingale : strategy.isMartingale = true
    · rw [if_pos hmartingale, if_pos hmartingale]
    · rw [if_neg hmartingale, if_neg hmartingale, StakeSizer.step_eq hsizer, if_neg hmartingale]
  · obtain ⟨hlength, hwon⟩ := resultsOf_counts history
    rw [settings.progress_of_cycles hcycles, ← hlength, ← hwon, position]
    show _ = (if strategy.isMartingale = true then _ else _) + 1
    split_ifs <;> rfl

/-! ## The repeat step -/

/-- The intents of a session, as the sizer reads them. -/
def tradesOf (intents : List SessionHistoryIntent) : List SessionTrade :=
  intents.map (fun i => sessionTradeOf { status := i.status, amount := i.amount, profit := i.profit })

/-- The results the driver numbers are those of the sizer's trades. -/
theorem resultsOf_tradesOf (intents : List SessionHistoryIntent) : resultsOf (tradesOf intents) =
    intents.filterMap (fun intent => if intent.status = .settled then intent.profit.map resultOf else none) := by
  rw [resultsOf, tradesOf, List.filterMap_map]
  refine List.filterMap_congr (fun intent _ => ?_)
  obtain ⟨_, _, status, amount, profit, _⟩ := intent
  cases status <;> cases profit <;> rfl

theorem resultsOf_snoc (intents : List SessionHistoryIntent) {last : SessionHistoryIntent}
    {profit : DecimalString} (hsettled : last.status = .settled) (hprofit : last.profit = some profit) :
    resultsOf (tradesOf (intents ++ [last])) = resultsOf (tradesOf intents) ++ [resultOf profit] := by
  obtain ⟨id, action, status, amount, profit', lastError⟩ := last
  obtain rfl : status = .settled := hsettled
  obtain rfl : profit' = some profit := hprofit
  rw [tradesOf, List.map_append, resultsOf, List.filterMap_append]
  rfl

theorem sessionTradeSteps_last (strategy : StakeStrategy) (results : List SessionTradeResult)
    (r : SessionTradeResult) :
    (sessionTradeSteps (results ++ [r]) strategy).getLast? = some (position strategy results) := by
  rw [sessionTradeSteps_snoc, List.getLast?_concat]

/-- **When the repeat step is due**, by the last intent and the results before it. -/
theorem repeatDue_snoc {intents : List SessionHistoryIntent} {last : SessionHistoryIntent}
    {settings : H1SessionSettings} {step : H1RepeatStep} :
    repeatDue (intents ++ [last]) settings = some step ↔
      (sessionStakeParams settings).strategy.isMartingale = true ∧ last.status = .settled ∧
        last.profit = some step.profit ∧ isWin (some step.profit) = false ∧
        sinceWin (resultsOf (tradesOf intents)) = [] ∧ step.intentId = last.id ∧ step.action = last.action := by
  obtain ⟨id, action, status, amount, profit, lastError⟩ := last
  unfold repeatDue
  simp only [List.getLast?_concat, ← resultsOf_tradesOf]
  by_cases hmartingale : (sessionStakeParams settings).strategy.isMartingale = true
  swap
  · simp [hmartingale]
  by_cases hsettled : status = .settled
  swap
  · simp [hmartingale, hsettled]
  subst hsettled
  cases profit with
  | none => simp [hmartingale]
  | some profit =>
    have hresults := @resultsOf_snoc intents ⟨id, action, .settled, amount, some profit, lastError⟩ profit rfl rfl
    simp only [hresults, sessionTradeSteps_last, position, hmartingale]
    by_cases hwin : isWin (some profit) = true
    · constructor
      · intro h
        simp [hwin] at h
      · rintro ⟨-, -, hprofit, hnotWon, -⟩
        rw [← hprofit, hwin] at hnotWon
        cases hnotWon
    · cases hsince : sinceWin (resultsOf (tradesOf intents)) with
      | nil =>
        obtain ⟨intentId, action', profit'⟩ := step
        simp [hwin]
        constructor
        · rintro ⟨rfl, rfl, rfl⟩
          exact ⟨rfl, by simpa using hwin, rfl, rfl⟩
        · rintro ⟨rfl, -, rfl, rfl⟩
          exact ⟨rfl, rfl, rfl⟩
      | cons r since => simp

theorem repeatDue_last {intents : List SessionHistoryIntent} {settings : H1SessionSettings} {step : H1RepeatStep}
    (h : repeatDue intents settings = some step) : ∃ before last, intents = before ++ [last] := by
  rcases List.eq_nil_or_concat intents with rfl | ⟨before, last, rfl⟩
  · simp [repeatDue] at h
  · exact ⟨before, last, by rw [List.concat_eq_append]⟩

/-- **The repeat step agrees with the sizer's reading.**  Over profits that are numeric(20,8) texts: the
text's class is the amount's sign; the repeat step is due just where, under martingale, the last intent
settled without a win and is the one trade since the last win; the next stake is then of step 2 after a
loss and of step 1 after a tie. -/
theorem repeat_parity {intents : List SessionHistoryIntent} {settings : H1SessionSettings}
    (hprofits : ∀ intent ∈ intents, ∀ profit, intent.profit = some profit → NumericText profit) :
    (∀ intent ∈ intents, ∀ profit, intent.profit = some profit → ∃ value, parseAmount profit = some value ∧
      resultOf profit = resultOfAmount value ∧ (isWin (some profit) = true ↔ 0 < value)) ∧
    ((repeatDue intents settings).isSome = true ↔
      (sessionStakeParams settings).strategy.isMartingale = true ∧
      (∃ last profit value, intents.getLast? = some last ∧ last.status = .settled ∧
        last.profit = some profit ∧ parseAmount profit = some value ∧ value ≤ 0) ∧
      (sinceWin (resultsOf (tradesOf intents))).length = 1) ∧
    ∀ step, repeatDue intents settings = some step →
      ∀ sizer, createStakeSizer (sessionStakeParams settings) = .ok sizer →
      ∀ ledger, readHistory (tradesOf intents) = .ok ledger →
      ∃ value, parseAmount step.profit = some value ∧ sizer.step ledger = if value < 0 then 2 else 1 := by
  have hclass : ∀ intent ∈ intents, ∀ profit, intent.profit = some profit →
      ∃ value, parseAmount profit = some value ∧ resultOf profit = resultOfAmount value ∧
        (isWin (some profit) = true ↔ 0 < value) := by
    intro intent hintent profit hprofit
    obtain ⟨value, hvalue⟩ := parseAmount_isSome (hprofits intent hintent profit hprofit)
    have hresult := resultOf_eq hvalue
    refine ⟨value, hvalue, hresult, ?_⟩
    rw [← resultOf_won_iff, hresult, resultOfAmount]
    split_ifs with hpos hneg
    · exact ⟨fun _ => hpos, fun _ => rfl⟩
    · exact ⟨fun h => absurd h (by decide), fun h => absurd h hpos⟩
    · exact ⟨fun h => absurd h (by decide), fun h => absurd h hpos⟩
  refine ⟨hclass, ?_, fun step hstep sizer hsizer ledger hread => ?_⟩
  · rw [Option.isSome_iff_exists]
    constructor
    · rintro ⟨step, hstep⟩
      obtain ⟨before, last, rfl⟩ := repeatDue_last hstep
      obtain ⟨hmartingale, hsettled, hprofit, hnotWon, hfirst, -⟩ := repeatDue_snoc.mp hstep
      obtain ⟨value, hvalue, hresult, hwin⟩ := hclass last (by simp) step.profit hprofit
      have hle : value ≤ 0 := by
        by_contra hpos
        rw [hwin.mpr (by omega)] at hnotWon
        cases hnotWon
      refine ⟨hmartingale, ⟨last, step.profit, value, List.getLast?_concat, hsettled, hprofit, hvalue, hle⟩, ?_⟩
      have hne : resultOf step.profit ≠ .won := by
        rw [ne_eq, resultOf_won_iff, hnotWon]
        exact Bool.false_ne_true
      rw [resultsOf_snoc before hsettled hprofit, sinceWin_snoc, if_neg hne, hfirst]
      rfl
    · rintro ⟨hmartingale, ⟨last, profit, value, hlast, hsettled, hprofit, hvalue, hle⟩, hone⟩
      obtain ⟨before, rfl⟩ := List.getLast?_eq_some_iff.mp hlast
      obtain ⟨value', hvalue', -, hwin⟩ := hclass last (by simp) profit hprofit
      rw [hvalue] at hvalue'
      obtain rfl := Option.some.inj hvalue'
      have hnotWon : isWin (some profit) = false := by
        rw [Bool.eq_false_iff, ne_eq, hwin]
        omega
      have hne : resultOf profit ≠ .won := by
        rw [ne_eq, resultOf_won_iff, hnotWon]
        exact Bool.false_ne_true
      rw [resultsOf_snoc before hsettled hprofit, sinceWin_snoc, if_neg hne, List.length_cons] at hone
      have hfirst : sinceWin (resultsOf (tradesOf before)) = [] := List.eq_nil_of_length_eq_zero (by omega)
      exact ⟨⟨last.id, last.action, profit⟩,
        repeatDue_snoc.mpr ⟨hmartingale, hsettled, hprofit, hnotWon, hfirst, rfl, rfl⟩⟩
  · obtain ⟨before, last, rfl⟩ := repeatDue_last hstep
    obtain ⟨hmartingale, hsettled, hprofit, hnotWon, hfirst, -⟩ := repeatDue_snoc.mp hstep
    obtain ⟨value, hvalue, hresult, hwin⟩ := hclass last (by simp) step.profit hprofit
    refine ⟨value, hvalue, ?_⟩
    have hle : ¬ 0 < value := by
      rw [← hwin, hnotWon]
      exact Bool.false_ne_true
    rw [StakeSizer.step_eq hsizer, if_pos hmartingale, (readHistory_results hread).1,
      resultsOf_snoc before hsettled hprofit, sinceWin_snoc, hresult, resultOfAmount, if_neg hle, hfirst]
    by_cases hlost : value < 0
    · rw [if_pos hlost, if_pos hlost, if_neg (by decide)]
      rfl
    · rw [if_neg hlost, if_neg hlost, if_neg (by decide)]
      rfl

/-! ## A session of a loss and a tie -/

/-- Two cycles of base stake 1.00 under martingale. -/
def paritySettings : H1SessionSettings where
  assetId := 1
  durationSec := 15
  length := .cycles 2
  stake := {
    baseStake := "1.00".toList
    stakeScale := 2
    strategy := .martingale {
      maxSteps := 4, maxStake := "12.00".toList, maxSessionLoss := "20.00".toList
      maxSessionDurationMs := 3600000 } }
  entryDelaySec := 1
  expirySec := 15

theorem step_parity_loss : ∃ sizer, createStakeSizer paritySettings.stake = .ok sizer ∧
    ∃ next, sessionNextStep [.lost, .tied] paritySettings.stake.strategy = .ok next ∧ next.step = 3 := by
  obtain ⟨sizer, hsizer⟩ : ∃ sizer, createStakeSizer paritySettings.stake = .ok sizer := ⟨_, rfl⟩
  have hread : ∃ ledger, readHistory (resolvedTrades [.settled "1.00".toList "-1.00".toList, .rejected,
      .settled "1.00".toList "0.00".toList, .unresolved]) = .ok ledger ∧ ledger.consecutiveLosses = 1 :=
    ⟨_, rfl, rfl⟩
  obtain ⟨ledger, hledger, hlosses⟩ := hread
  obtain ⟨next, hnext, hstep⟩ := (@step_parity (.h1 paritySettings) sizer hsizer).1 _ ledger hledger
  refine ⟨sizer, hsizer, next, hnext, ?_⟩
  rw [hstep, StakeSizer.step_eq hsizer, hlosses]
  rfl

/-- The repeat step after the session's first trade is lost. -/
theorem repeat_parity_loss : (repeatDue [⟨1, .up, .settled, "1.00".toList, some "-1.00".toList, none⟩]
    paritySettings).isSome = true := by
  refine (@repeat_parity _ paritySettings ?_).2.1.mpr ⟨rfl, ⟨_, _, -100000000, rfl, rfl, rfl, by decide, by decide⟩, rfl⟩
  intro intent hintent profit hprofit
  obtain rfl := List.mem_singleton.mp hintent
  obtain rfl := Option.some.inj hprofit
  exact ⟨['-'], ['1'], ['0', '0'], rfl, .inr rfl, by decide, by simp, by decide, by simp, by decide⟩

end Binarius
