import Mathlib.Tactic
import Binarius.Backend.DriverRuns

/-!
# Worker.DriverAgreement — the driver trades only where the orchestrator lets the session live

The driver of the backend and the orchestrator of the worker read the same history, balance, pairs and
clock, in another order and for another end: the one asks for intents, the other stops the session.

* `prepare_of_addSession`: a session the driver tracks is prepared, with the same sizer.
* `driver_orchestrator_agree`: **an intent is asked for only where the orchestrator holds the session.**
-/

namespace Binarius

/-- The session as the orchestrator scans it. -/
def ActiveH1Session.runnable (session : ActiveH1Session) (settings : TradingSessionSettings) :
    RunnableSession where
  id := session.id
  brokerAccountId := session.brokerAccountId
  startedAt := session.startedAt
  settings := settings

section Agreement

variable {schemaAccepts : TradingSessionSettings → Bool} {windowFits : H1SessionSettings → Bool}
  {session : ActiveH1Session} {settings : TradingSessionSettings} {tracked : Tracked}

/-- **A session the driver tracks is prepared** by the orchestrator: the same settings, the same sizer,
and H1's duration. -/
theorem prepare_of_addSession (hadd : addSession schemaAccepts windowFits session settings = some tracked) :
    prepare schemaAccepts (session.runnable settings) =
        .ok ⟨session.runnable settings, tracked.settings, tracked.sizer⟩ ∧
      tracked.session = session ∧ tracked.settings.durationSec = h1ExpirySec := by
  unfold addSession at hadd
  split at hadd
  · rename_i parsed hparse
    split at hadd
    · split at hadd
      · rename_i sizer hsizer
        obtain rfl := Option.some.inj hadd
        refine ⟨?_, rfl, ?_⟩
        · unfold prepare
          rw [show (session.runnable settings).settings = settings from rfl, hparse]
          simp only [TradingSessionSettings.stakeParams, hsizer]
        · unfold safeParseTradingSessionSettings at hparse
          split at hparse
          · split at hparse
            · rename_i hduration
              obtain rfl := TradingSessionSettings.h1.inj (Option.some.inj hparse)
              exact hduration.1
            · exact nomatch hparse
          · split at hparse
            · exact nomatch Option.some.inj hparse
            · exact nomatch hparse
      · exact nomatch hadd
    · exact nomatch hadd
  · exact nomatch hadd

/-- **Driver and orchestrator agree on when a session may trade.**  Over the same history, balance,
pairs and clock an event of a tracked session asks for an intent only where the orchestrator neither
stops nor reschedules the session; and `trade` itself, whatever plan it was launched with, asks for none
where the orchestrator stops the session for anything but the pair. -/
theorem driver_orchestrator_agree (config : SessionOrchestratorConfig)
    (hadd : addSession schemaAccepts windowFits session settings = some tracked)
    (process : DriverProcess) (outcome : PairsOutcome)
    (halike : ∀ view, outcome = .ok view → process.view = some view)
    (read : Option SessionBatchRead) :
    (∀ flags event input, driverStep process tracked flags event read = some (.ok (.create input)) →
      ∃ ms, orchestratorEnding config schemaAccepts (session.runnable settings) read outcome
        process.nowMs = .hold ms) ∧
    ∀ reason, orchestratorEnding config schemaAccepts (session.runnable settings) read outcome
        process.nowMs = .stop reason →
      (∀ flags event input, driverStep process tracked flags event read ≠ some (.ok (.create input))) ∧
      (reason ≠ .pairUnavailable → reason ≠ .noSignalTimeout → ∀ plan reads input,
        reads.stakeNowMs = process.nowMs →
        (∀ view pair batch, outcome = .ok view → view.pairOf tracked.settings.assetId = some pair →
          read = some batch →
          stepPayout plan (repeatPair (repeatDue batch.history.intents tracked.settings) reads) =
            pair.payout) →
        planTrade tracked plan reads read ≠ .ok (.create input)) := by
  obtain ⟨hprepare, hsession, hduration⟩ := prepare_of_addSession hadd
  have hholds : ∀ flags event input,
      driverStep process tracked flags event read = some (.ok (.create input)) →
      ∃ ms, orchestratorEnding config schemaAccepts (session.runnable settings) read outcome
        process.nowMs = .hold ms := by
    intro flags event input hcreate
    obtain ⟨batch, balance, pair, version, amount, features, rfl, hblock, hbalance, hpair, hnext⟩ :=
      driverStep_create hcreate
    unfold orchestratorEnding
    rw [hprepare]
    simp only
    rw [beforePair_ok config hblock hbalance]
    simp only
    cases houtcome : outcome with
    | failed => exact ⟨config.retryMs, rfl⟩
    | ok view =>
      obtain ⟨listedView, hview, hlisted⟩ := hpair.listed
      obtain rfl := Option.some.inj ((halike view houtcome).symm.trans hview)
      refine atPair_stake config hlisted ?_ hpair.isOpen (hsession ▸ hnext)
      rw [hduration]
      exact hpair.accepts
  refine ⟨hholds, fun reason hstop => ⟨?_, ?_⟩⟩
  · intro flags event input hcreate
    obtain ⟨ms, hhold⟩ := hholds flags event input hcreate
    exact nomatch hstop.symm.trans hhold
  · intro hnotPair hnotTimeout plan reads input hnow hpayout hcreate
    obtain ⟨batch, balance, version, amount, features, rfl, hblock, hbalance, -, -, hnext⟩ :=
      planTrade_create hcreate
    unfold orchestratorEnding at hstop
    rw [hprepare] at hstop
    simp only at hstop
    rw [beforePair_ok config hblock hbalance] at hstop
    simp only at hstop
    rcases atPair_stop config hstop with hpair | htimeout | ⟨view, pair, rfl, hlisted, decision, hdecision, hending⟩
    · exact hnotPair hpair
    · exact hnotTimeout htimeout
    · -- the same input of the same sizer: the stake the driver saw is the decision here
      rw [hpayout view pair batch rfl hlisted rfl, hnow, hsession] at hnext
      obtain rfl := Except.ok.inj (hnext.symm.trans hdecision)
      simp [stakeEnding, waitsForBalance] at hending

end Agreement

/-- A session of one cycle on pair 7 with a fixed stake of 1.00. -/
def oneCycle : H1SessionSettings where
  assetId := 7
  durationSec := 5
  length := .cycles 1
  stake := { baseStake := "1.00".toList, stakeScale := 2, strategy := .fixed }
  entryDelaySec := 1
  expirySec := 5

/-- The catalog of pair 7, which takes 5 s and is open. -/
def onePair : PairsCatalogView := ⟨true, [⟨7, "92".toList, 5, 300, 0⟩]⟩

/-- What both read of a session without intents. -/
def noIntents (expired : Bool) : SessionBatchRead :=
  ⟨⟨3, expired, false, []⟩, some ⟨"10.00".toList, "0.10".toList, false⟩⟩

/-- A signal in the session's hour is asked for and the orchestrator holds the session; past the hour it
stops the session, and no event asks for an intent. -/
theorem driver_orchestrator_agree_hour : ∃ tracked,
    addSession (fun _ => true) (fun _ => true) ⟨1, 2, .demo, 0⟩ (.h1 oneCycle) = some tracked ∧
      (∃ input ms, driverStep ⟨some onePair, true, 3000000, 2000⟩ tracked ⟨false, false, none⟩
          (.closed ⟨2999000, 3000000, 3000000, some (.signal .up)⟩) (some (noIntents false)) =
            some (.ok (.create input)) ∧
        orchestratorEnding ⟨5000, 1000, 1000⟩ (fun _ => true)
          ((⟨1, 2, .demo, 0⟩ : ActiveH1Session).runnable (.h1 oneCycle)) (some (noIntents false))
          (.ok onePair) 3000000 = .hold ms) ∧
      ∀ flags event input, driverStep ⟨some onePair, true, 3700000, 2000⟩ tracked flags event
        (some (noIntents true)) ≠ some (.ok (.create input)) := by
  have hadd : addSession (fun _ => true) (fun _ => true) ⟨1, 2, .demo, 0⟩ (.h1 oneCycle) =
      some ⟨⟨1, 2, .demo, 0⟩, oneCycle, ⟨stakeAlgorithmVersion, oneCycle.stake, 100000000, none⟩⟩ := by rfl
  have halike : ∀ view, PairsOutcome.ok onePair = .ok view → some onePair = some view := by
    intro view hview
    rw [PairsOutcome.ok.inj hview]
  refine ⟨_, hadd, ?_, fun flags event input => ?_⟩
  · obtain ⟨ms, hhold⟩ := (driver_orchestrator_agree ⟨5000, 1000, 1000⟩ hadd
      ⟨some onePair, true, 3000000, 2000⟩ (.ok onePair) halike (some (noIntents false))).1
      ⟨false, false, none⟩ (.closed ⟨2999000, 3000000, 3000000, some (.signal .up)⟩) _ rfl
    exact ⟨_, ms, rfl, hhold⟩
  · exact ((driver_orchestrator_agree ⟨5000, 1000, 1000⟩ hadd ⟨some onePair, true, 3700000, 2000⟩
      (.ok onePair) halike (some (noIntents true))).2 .timeout rfl).1 flags event input

end Binarius
