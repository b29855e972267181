import Mathlib.Tactic
import Binarius.Backend.Mailing
import Binarius.Lib.Runs

/-!
# Backend.MailingOnce — a mailing is never sent again unless its send was definitely refused

* `Inv`: **the invariant**: a delivery under way has its row marked, what may have reached the user keeps
  its row `sent`, and an earlier delivery of a key is over with nothing delivered.
* `Inv.jobs`, `Inv.update`: changes of rows that are not `sent`, and a step of one delivery.
* `Inv.later_act`: **one event, seen from one delivery**.
* `mailing_once`: whole runs.
-/

namespace Binarius

open Lib

/-- A sender works on it, or its settle may still commit. -/
def Delivery.Active (delivery : Delivery) : Prop := delivery.phase ≠ .over

theorem Delivery.active_of_phase {delivery : Delivery} {phase : DeliveryPhase}
    (hphase : delivery.phase = phase) (hnot : phase ≠ .over) : delivery.Active := by
  rw [← hphase] at hnot
  exact hnot

/-- Nothing of it can have reached the user: never handed over, or definitely refused. -/
def Delivery.Clear (delivery : Delivery) : Prop :=
  delivery.handing = .none ∨ delivery.handing = .refused

/-- How far a delivery is says what came of the handing. -/
def Delivery.PhaseOk (delivery : Delivery) : Prop :=
  match delivery.phase with
  | .building => delivery.handing = .none
  | .sending => delivery.handing = .inWork
  | .settling .delivered => delivery.handing = .accepted
  | .settling _ => delivery.Clear
  | .over => delivery.handing ≠ .inWork

/-- What a delivery says about its row. -/
structure RowOk (job : MailingJob) (delivery : Delivery) : Prop where
  claimed : delivery.Active → job.Claimed
  sent : ¬ delivery.Clear → job.status = .sent

/-- Below the bound, or failed at it. -/
structure AttemptsOk (maxAttempts : ℕ) (job : MailingJob) : Prop where
  failed : job.status = .failed → job.attempts ≤ maxAttempts
  others : job.status ≠ .failed → job.attempts < maxAttempts

namespace Mailing

structure Inv (maxAttempts : ℕ) (s : Mailing) : Prop where
  rows : ∀ (i : ℕ) (d : Delivery), s.deliveries[i]? = some d →
    ∃ job, s.jobs.get? d.key = some job ∧ RowOk job d
  phases : ∀ (i : ℕ) (d : Delivery), s.deliveries[i]? = some d → d.PhaseOk
  earlier : ∀ (i j : ℕ) (a b : Delivery), i < j → s.deliveries[i]? = some a →
    s.deliveries[j]? = some b → a.key = b.key → ¬ a.Active ∧ a.Clear
  attempts : ∀ key job, s.jobs.get? key = some job → AttemptsOk maxAttempts job

theorem Inv.start (maxAttempts : ℕ) : Inv maxAttempts Mailing.start where
  rows i d h := by simp [Mailing.start] at h
  phases i d h := by simp [Mailing.start] at h
  earlier i j a b _ h := by simp [Mailing.start] at h
  attempts key job h := by simp [Mailing.start] at h

/-! ### Changes of rows -/

theorem changeRow_get? (f : MailingJob → MailingJob) (key key' : JobKey)
    (m : OrderedMap JobKey MailingJob) :
    (changeRow f key m).get? key' = if key = key' then (m.get? key').map f else m.get? key' := by
  unfold changeRow
  cases hget : m.get? key with
  | none =>
    by_cases hkey : key = key'
    · subst hkey
      simp [hget]
    · simp [hkey]
  | some job =>
    simp only [OrderedMap.get?_set]
    by_cases hkey : key = key'
    · subst hkey
      simp [hget]
    · simp [hkey]

theorem planOne_get? (config : MailingConfig) (m : OrderedMap JobKey MailingJob) (fact : PlannedFact)
    (key : JobKey) : (planOne config m fact).get? key =
      if fact.key = key then some (planJobRow config.replansCanceled fact (m.get? key))
      else m.get? key := by
  unfold planOne
  rw [OrderedMap.get?_set]
  by_cases hkey : fact.key = key
  · rw [if_pos hkey, if_pos hkey, hkey]
  · rw [if_neg hkey, if_neg hkey]

/-- What a plan or a cancel does to the table: no row goes, a `sent` one stays as it is, no other
becomes `sent`, and the attempts stay below their bound. -/
structure Quiet (maxAttempts : ℕ) (m m' : OrderedMap JobKey MailingJob) : Prop where
  keeps : ∀ key job, m.get? key = some job → ∃ job', m'.get? key = some job' ∧
    (job.status = .sent → job' = job) ∧ (job.status ≠ .sent → job'.status ≠ .sent)
  attempts : (∀ key job, m.get? key = some job → AttemptsOk maxAttempts job) →
    ∀ key job, m'.get? key = some job → AttemptsOk maxAttempts job

theorem Quiet.refl (maxAttempts : ℕ) (m : OrderedMap JobKey MailingJob) : Quiet maxAttempts m m where
  keeps _ job h := ⟨job, h, fun _ => rfl, fun h => h⟩
  attempts h := h

theorem Quiet.trans {maxAttempts : ℕ} {a b c : OrderedMap JobKey MailingJob}
    (hab : Quiet maxAttempts a b) (hbc : Quiet maxAttempts b c) : Quiet maxAttempts a c where
  keeps key job h := by
    obtain ⟨job', h', hsent, hother⟩ := hab.keeps key job h
    obtain ⟨job'', h'', hsent', hother'⟩ := hbc.keeps key job' h'
    refine ⟨job'', h'', fun hs => ?_, fun hs => hother' (hother hs)⟩
    have hsame := hsent hs
    subst hsame
    exact hsent' hs
  attempts h := hbc.attempts (hab.attempts h)

theorem Quiet.foldl {α : Type} {maxAttempts : ℕ}
    {f : OrderedMap JobKey MailingJob → α → OrderedMap JobKey MailingJob}
    (h : ∀ m a, Quiet maxAttempts m (f m a)) (l : List α) (m : OrderedMap JobKey MailingJob) :
    Quiet maxAttempts m (l.foldl f m) := by
  induction l generalizing m with
  | nil => exact Quiet.refl maxAttempts m
  | cons a l ih => exact (h m a).trans (ih (f m a))

theorem quiet_planOne {config : MailingConfig} (hpos : 0 < config.maxAttempts)
    (m : OrderedMap JobKey MailingJob) (fact : PlannedFact) :
    Quiet config.maxAttempts m (planOne config m fact) where
  keeps key job h := by
    rw [planOne_get?]
    by_cases hkey : fact.key = key
    · rw [if_pos hkey, h]
      refine ⟨_, rfl, ?_, ?_⟩
      · intro hsent
        unfold planJobRow
        simp [hsent]
      · intro hother
        unfold planJobRow
        simp only
        split_ifs
        · simp
        · exact hother
    · rw [if_neg hkey]
      exact ⟨job, h, fun _ => rfl, fun h => h⟩
  attempts hall key job h := by
    rw [planOne_get?] at h
    by_cases hkey : fact.key = key
    · rw [if_pos hkey] at h
      injection h with h
      subst h
      cases hget : m.get? key with
      | none => exact ⟨fun hfailed => (by cases hfailed), fun _ => hpos⟩
      | some job =>
        unfold planJobRow
        simp only
        split_ifs
        · exact ⟨fun hfailed => (by cases hfailed), fun _ => hpos⟩
        · exact hall key job hget
    · rw [if_neg hkey] at h
      exact hall key job h

/-- A canceled row was pending. -/
theorem cancelJobRow_ok {maxAttempts : ℕ} {job : MailingJob} :
    (job.status = .sent → cancelJobRow job = job) ∧
      (job.status ≠ .sent → (cancelJobRow job).status ≠ .sent) ∧
      (AttemptsOk maxAttempts job → AttemptsOk maxAttempts (cancelJobRow job)) := by
  unfold cancelJobRow
  split_ifs with hpending
  · refine ⟨fun hsent => ?_, fun _ => by simp,
      fun hok => ⟨fun hfailed => (by cases hfailed), fun _ => ?_⟩⟩
    · rw [hpending] at hsent
      cases hsent
    · refine hok.others ?_
      rw [hpending]
      decide
  · exact ⟨fun _ => rfl, fun hother => hother, fun hok => hok⟩

theorem quiet_cancelOne (maxAttempts : ℕ) (key : JobKey) (m : OrderedMap JobKey MailingJob) :
    Quiet maxAttempts m (changeRow cancelJobRow key m) where
  keeps key' job h := by
    rw [changeRow_get?]
    split_ifs
    · rw [h]
      exact ⟨_, rfl, (@cancelJobRow_ok maxAttempts job).1, (@cancelJobRow_ok maxAttempts job).2.1⟩
    · exact ⟨job, h, fun _ => rfl, fun h => h⟩
  attempts hall key' job h := by
    rw [changeRow_get?] at h
    split_ifs at h
    · obtain ⟨old, hold, rfl⟩ := Option.map_eq_some_iff.mp h
      exact cancelJobRow_ok.2.2 (hall key' old hold)
    · exact hall key' job h

theorem quiet_cancel (maxAttempts userId : ℕ) (except : List String)
    (m : OrderedMap JobKey MailingJob) :
    Quiet maxAttempts m (m.mapVal (fun key job =>
      if key.userId = userId ∧ job.kind ∉ except then cancelJobRow job else job)) where
  keeps key job h := by
    rw [OrderedMap.get?_mapVal, h]
    refine ⟨_, rfl, ?_, ?_⟩
    · intro hsent
      simp only
      split_ifs
      · exact (@cancelJobRow_ok maxAttempts job).1 hsent
      · rfl
    · intro hother
      simp only
      split_ifs
      · exact (@cancelJobRow_ok maxAttempts job).2.1 hother
      · exact hother
  attempts hall key job h := by
    rw [OrderedMap.get?_mapVal] at h
    obtain ⟨old, hold, rfl⟩ := Option.map_eq_some_iff.mp h
    split_ifs
    · exact cancelJobRow_ok.2.2 (hall key old hold)
    · exact hall key old hold

/-! ### The invariant -/

variable {maxAttempts : ℕ} {s : Mailing}

/-- **Rows that are not `sent` change**, and no delivery is about them. -/
theorem Inv.jobs (h : Inv maxAttempts s) {m : OrderedMap JobKey MailingJob}
    (hquiet : Quiet maxAttempts s.jobs m) : Inv maxAttempts { s with jobs := m } where
  rows i d hd := by
    obtain ⟨job, hjob, hok⟩ := h.rows i d hd
    obtain ⟨job', hjob', hsent, -⟩ := hquiet.keeps d.key job hjob
    refine ⟨job', hjob', fun hactive => ?_, fun hclear => ?_⟩
    · have hclaimed := hok.claimed hactive
      rw [hsent hclaimed.1]
      exact hclaimed
    · have hstatus := hok.sent hclear
      rw [hsent hstatus]
      exact hstatus
  phases := h.phases
  earlier := h.earlier
  attempts := hquiet.attempts h.attempts

/-- While a delivery is under way its key has no later one. -/
theorem Inv.no_later (h : Inv maxAttempts s) {i j : ℕ} {d e : Delivery}
    (hd : s.deliveries[i]? = some d) (he : s.deliveries[j]? = some e) (hactive : d.Active)
    (hkey : e.key = d.key) (hne : i ≠ j) : j < i ∧ ¬ e.Active ∧ e.Clear := by
  rcases lt_or_gt_of_ne hne with hlt | hlt
  · exact absurd hactive (h.earlier i j d e hlt hd he hkey.symm).1
  · exact ⟨hlt, h.earlier j i e d hlt he hd hkey⟩

/-- **A step of one delivery**, with what it does to its own row. -/
theorem Inv.update (h : Inv maxAttempts s) {i : ℕ} {d d' : Delivery} {m : OrderedMap JobKey MailingJob}
    (hd : s.deliveries[i]? = some d) (hactive : d.Active) (hkey : d'.key = d.key) (hphase : d'.PhaseOk)
    {job : MailingJob} (hjob : m.get? d.key = some job) (hrow : RowOk job d')
    (hothers : ∀ key, key ≠ d.key → m.get? key = s.jobs.get? key)
    (hattempts : AttemptsOk maxAttempts job) :
    Inv maxAttempts ⟨m, s.deliveries.set i d'⟩ := by
  have hlength : i < s.deliveries.length := by
    obtain ⟨hlt, -⟩ := List.getElem?_eq_some_iff.mp hd
    exact hlt
  have hset : ∀ j e, (s.deliveries.set i d')[j]? = some e →
      (j = i ∧ e = d') ∨ (j ≠ i ∧ s.deliveries[j]? = some e) := by
    intro j e he
    rw [List.getElem?_set] at he
    by_cases hij : i = j
    · rw [if_pos hij, if_pos hlength] at he
      injection he with he
      exact .inl ⟨hij.symm, he.symm⟩
    · rw [if_neg hij] at he
      exact .inr ⟨fun heq => hij heq.symm, he⟩
  refine ⟨fun j e he => ?_, fun j e he => ?_, fun j k a b hjk ha hb hab => ?_, fun key job' hget => ?_⟩
  · rcases hset j e he with ⟨-, rfl⟩ | ⟨hne, he⟩
    · rw [hkey]
      exact ⟨job, hjob, hrow⟩
    · obtain ⟨old, hold, hok⟩ := h.rows j e he
      by_cases hek : e.key = d.key
      · -- the key's other deliveries are over, and delivered nothing
        obtain ⟨-, hover, hclear⟩ := h.no_later hd he hactive hek (fun heq => hne heq.symm)
        rw [hek]
        exact ⟨job, hjob, fun hactive' => absurd hactive' hover, fun hnot => absurd hclear hnot⟩
      · refine ⟨old, ?_, hok⟩
        show m.get? e.key = some old
        rw [hothers e.key hek]
        exact hold
  · rcases hset j e he with ⟨-, rfl⟩ | ⟨-, he⟩
    · exact hphase
    · exact h.phases j e he
  · rcases hset j a ha with ⟨rfl, rfl⟩ | ⟨hnej, ha⟩
    · rcases hset k b hb with ⟨hk, -⟩ | ⟨hnek, hb⟩
      · omega
      · have := (h.no_later hd hb hactive (hab.symm.trans hkey) (fun heq => hnek heq.symm)).1
        omega
    · rcases hset k b hb with ⟨hk, hb'⟩ | ⟨-, hb⟩
      · rw [hk] at hjk
        rw [hb'] at hab
        exact h.earlier j i a d hjk ha hd (hab.trans hkey)
      · exact h.earlier j k a b hjk ha hb hab
  · by_cases hk : key = d.key
    · have hget' : m.get? key = some job' := hget
      rw [hk, hjob] at hget'
      injection hget' with hget'
      rw [← hget']
      exact hattempts
    · have hget' : m.get? key = some job' := hget
      rw [hothers key hk] at hget'
      exact h.attempts key job' hget'

/-- A step of a delivery that leaves the table. -/
theorem Inv.setDelivery (h : Inv maxAttempts s) {i : ℕ} {d d' : Delivery}
    (hd : s.deliveries[i]? = some d) (hactive : d.Active) (hkey : d'.key = d.key)
    (hphase : d'.PhaseOk) : Inv maxAttempts (s.setDelivery i d') := by
  obtain ⟨job, hjob, hok⟩ := h.rows i d hd
  have hclaimed := hok.claimed hactive
  exact h.update hd hactive hkey hphase hjob ⟨fun _ => hclaimed, fun _ => hclaimed.1⟩
    (fun _ _ => rfl) (h.attempts d.key job hjob)

/-- **A claim**: the row was not `sent`, so the key's deliveries are over and delivered nothing. -/
theorem Inv.claim (h : Inv maxAttempts s) {key : JobKey} {job : MailingJob} (now : ℕ)
    (hjob : s.jobs.get? key = some job) (hstatus : job.status = .pending) (answered : Bool) :
    Inv maxAttempts ⟨changeRow (claimJobRow now) key s.jobs,
      s.deliveries ++ [⟨key, if answered then .building else .over, .none⟩]⟩ := by
  have hget : (changeRow (claimJobRow now) key s.jobs).get? key = some (claimJobRow now job) := by
    rw [changeRow_get?, if_pos rfl, hjob]
    rfl
  have hothers : ∀ key', key' ≠ key →
      (changeRow (claimJobRow now) key s.jobs).get? key' = s.jobs.get? key' := by
    intro key' hne
    rw [changeRow_get?, if_neg (fun heq => hne heq.symm)]
  have hearlier : ∀ (i : ℕ) (d : Delivery), s.deliveries[i]? = some d → d.key = key →
      ¬ d.Active ∧ d.Clear := by
    intro i d hd hkey
    obtain ⟨old, hold, hok⟩ := h.rows i d hd
    rw [hkey, hjob] at hold
    injection hold with hold
    subst hold
    constructor
    · intro hactive
      have := (hok.claimed hactive).1
      rw [hstatus] at this
      cases this
    · by_contra hclear
      have := hok.sent hclear
      rw [hstatus] at this
      cases this
  have hclaimed : (claimJobRow now job).Claimed := ⟨rfl, rfl⟩
  -- a delivery is one of the earlier ones, or the claim's own
  have hcases : ∀ (i : ℕ) (d : Delivery), (s.deliveries ++
      [(⟨key, if answered then .building else .over, .none⟩ : Delivery)])[i]? = some d → s.deliveries[i]? = some d ∨
        (i = s.deliveries.length ∧ d = ⟨key, if answered then .building else .over, .none⟩) := by
    intro i d hd
    rcases lt_trichotomy i s.deliveries.length with hlt | heq | hgt
    · rw [List.getElem?_append_left hlt] at hd
      exact .inl hd
    · subst heq
      rw [List.getElem?_concat_length] at hd
      injection hd with hd
      exact .inr ⟨rfl, hd.symm⟩
    · rw [List.getElem?_eq_none (by simp; omega)] at hd
      cases hd
  refine ⟨fun i d hd => ?_, fun i d hd => ?_, fun i j a b hij ha hb hab => ?_, fun key' job' hget' => ?_⟩
  · rcases hcases i d hd with hd | ⟨-, rfl⟩
    · by_cases hkey : d.key = key
      · obtain ⟨hover, hclear⟩ := hearlier i d hd hkey
        refine ⟨claimJobRow now job, ?_, fun hactive => absurd hactive hover,
          fun hnot => absurd hclear hnot⟩
        show (changeRow (claimJobRow now) key s.jobs).get? d.key = _
        rw [hkey]
        exact hget
      · obtain ⟨old, hold, hok⟩ := h.rows i d hd
        refine ⟨old, ?_, hok⟩
        show (changeRow (claimJobRow now) key s.jobs).get? d.key = _
        rw [hothers d.key hkey]
        exact hold
    · exact ⟨claimJobRow now job, hget, fun _ => hclaimed, fun _ => rfl⟩
  · rcases hcases i d hd with hd | ⟨-, rfl⟩
    · exact h.phases i d hd
    · unfold Delivery.PhaseOk
      cases answered <;> simp
  · rcases hcases j b hb with hb | ⟨rfl, rfl⟩
    · rcases hcases i a ha with ha | ⟨rfl, -⟩
      · exact h.earlier i j a b hij ha hb hab
      · obtain ⟨hlt, -⟩ := List.getElem?_eq_some_iff.mp hb
        omega
    · rcases hcases i a ha with ha | ⟨rfl, -⟩
      · exact hearlier i a ha hab
      · omega
  · by_cases hkey : key' = key
    · subst hkey
      have hget'' : (changeRow (claimJobRow now) key' s.jobs).get? key' = some job' := hget'
      rw [hget] at hget''
      injection hget'' with hget''
      subst hget''
      have hok := h.attempts key' job hjob
      refine ⟨fun hfailed => (by cases hfailed), fun _ => hok.others ?_⟩
      rw [hstatus]
      decide
    · have hget'' : (changeRow (claimJobRow now) key s.jobs).get? key' = some job' := hget'
      rw [hothers key' hkey] at hget''
      exact h.attempts key' job' hget''

/-- What a settle makes of a claimed row. -/
theorem settleJobRow_ok {job : MailingJob} (hclaimed : job.Claimed) (now : ℕ) (outcome : MailingOutcome)
    (hok : AttemptsOk maxAttempts job) :
    (outcome = .delivered → (settleJobRow maxAttempts now outcome job).status = .sent) ∧
      AttemptsOk maxAttempts (settleJobRow maxAttempts now outcome job) := by
  have hbelow : job.attempts < maxAttempts := by
    refine hok.others ?_
    rw [hclaimed.1]
    decide
  unfold settleJobRow
  rw [if_pos hclaimed]
  cases outcome with
  | delivered =>
    refine ⟨fun _ => hclaimed.1, fun hfailed => ?_, fun _ => hbelow⟩
    have hfailed' : job.status = .failed := hfailed
    rw [hclaimed.1] at hfailed'
    cases hfailed'
  | refused lastError =>
    refine ⟨fun h => (by cases h), fun _ => hbelow, fun hnot => absurd rfl hnot⟩
  | deferred lastError afterMs =>
    exact ⟨fun h => (by cases h), fun hfailed => (by cases hfailed), fun _ => hbelow⟩
  | retry lastError afterMs =>
    refine ⟨fun h => (by cases h), fun _ => hbelow, fun hnot => ?_⟩
    simp only at hnot ⊢
    split_ifs at hnot with hlast
    · exact absurd rfl hnot
    · omega

/-- What is being settled has its answer. -/
theorem Inv.settling_answered (h : Inv maxAttempts s) {i : ℕ} {d : Delivery} {outcome : MailingOutcome}
    (hd : s.deliveries[i]? = some d) (hphase : d.phase = .settling outcome) : d.handing ≠ .inWork := by
  have hok := h.phases i d hd
  unfold Delivery.PhaseOk at hok
  rw [hphase] at hok
  cases outcome with
  | delivered =>
    rw [show d.handing = .accepted from hok]
    decide
  | _ =>
    rcases hok with hnone | hrefused
    · rw [hnone]
      decide
    · rw [hrefused]
      decide

/-- The sender's process ends. -/
theorem Inv.crash (h : Inv maxAttempts s) {i : ℕ} {d : Delivery} (hd : s.deliveries[i]? = some d) :
    Inv maxAttempts (s.setDelivery i (crashedDelivery d)) := by
  have hok := h.phases i d hd
  have hsame : crashedDelivery d = d → Inv maxAttempts (s.setDelivery i (crashedDelivery d)) := by
    intro heq
    obtain ⟨hlt, hget⟩ := List.getElem?_eq_some_iff.mp hd
    have hset : s.deliveries.set i d = s.deliveries := by
      rw [← hget]
      exact List.set_getElem_self hlt
    unfold Mailing.setDelivery
    rw [heq, hset]
    exact h
  unfold Delivery.PhaseOk at hok
  cases hphase : d.phase with
  | building =>
    rw [hphase] at hok
    have hcrashed : crashedDelivery d = { d with phase := .over } := by
      unfold crashedDelivery
      rw [hphase]
    rw [hcrashed]
    refine h.setDelivery hd ?_ rfl ?_
    · exact Delivery.active_of_phase hphase (by simp)
    · show d.handing ≠ .inWork
      rw [show d.handing = .none from hok]
      decide
  | sending =>
    have hcrashed : crashedDelivery d = { d with phase := .over, handing := .unknown } := by
      unfold crashedDelivery
      rw [hphase]
    rw [hcrashed]
    refine h.setDelivery hd ?_ rfl ?_
    · exact Delivery.active_of_phase hphase (by simp)
    · show Handing.unknown ≠ Handing.inWork
      decide
  | settling outcome =>
    refine hsame ?_
    unfold crashedDelivery
    rw [hphase]
  | «over» =>
    refine hsame ?_
    unfold crashedDelivery
    rw [hphase]

/-- **A settle commits**: its own claim's row is still marked, so it is the one it was told to settle. -/
theorem Inv.settle (h : Inv maxAttempts s) {i : ℕ} {d : Delivery} {outcome : MailingOutcome}
    (hd : s.deliveries[i]? = some d) (hphase : d.phase = .settling outcome) (now : ℕ) :
    Inv maxAttempts ⟨changeRow (settleJobRow maxAttempts now outcome) d.key s.jobs,
      s.deliveries.set i { d with phase := .over }⟩ := by
  have hactive : d.Active := Delivery.active_of_phase hphase (by simp)
  obtain ⟨job, hjob, hrow⟩ := h.rows i d hd
  have hclaimed := hrow.claimed hactive
  obtain ⟨hsent, hattempts⟩ := settleJobRow_ok hclaimed now outcome (h.attempts d.key job hjob)
  have hok := h.phases i d hd
  unfold Delivery.PhaseOk at hok
  rw [hphase] at hok
  have hnew : (changeRow (settleJobRow maxAttempts now outcome) d.key s.jobs).get? d.key =
      some (settleJobRow maxAttempts now outcome job) := by
    rw [changeRow_get?, if_pos rfl, hjob]
    rfl
  have hanswered : d.handing ≠ .inWork := h.settling_answered hd hphase
  refine h.update hd hactive rfl hanswered hnew
    ⟨fun hover => absurd rfl hover, ?_⟩ ?_ hattempts
  · intro hclear
    cases outcome with
    | delivered => exact hsent rfl
    | _ => exact absurd hok hclear
  · intro key hne
    rw [changeRow_get?, if_neg (fun heq => hne heq.symm)]

theorem foldl_cancel_get? (due : List (JobKey × Bool)) (m : OrderedMap JobKey MailingJob) {key : JobKey}
    (h : key ∉ due.map Prod.fst) :
    (due.foldl (fun jobs d => changeRow cancelJobRow d.1 jobs) m).get? key = m.get? key := by
  induction due generalizing m with
  | nil => rfl
  | cons d due ih =>
    rw [List.map_cons, List.mem_cons] at h
    rw [List.foldl_cons, ih _ (fun hmem => h (.inr hmem)), changeRow_get?,
      if_neg (fun heq => h (.inl heq.symm))]

/-- **One event keeps the invariant.** -/
theorem Inv.act {config : MailingConfig} (hpos : 0 < config.maxAttempts) (e : Act)
    (h : Inv config.maxAttempts s) : Inv config.maxAttempts (s.act config e) := by
  cases e with
  | plan facts => exact h.jobs (Quiet.foldl (quiet_planOne hpos) facts s.jobs)
  | claim now due answered =>
    unfold Mailing.act
    by_cases hdue : (due.map Prod.fst).Nodup ∧ ∀ d ∈ due, s.IsDue now d.1
    · simp only [if_pos hdue]
      obtain ⟨hnodup, hall⟩ := hdue
      have hcanceled := h.jobs (Quiet.foldl (fun m d => quiet_cancelOne config.maxAttempts d.1 m)
        (due.filter (fun d => d.2 = false)) s.jobs)
      cases hfind : due.find? (fun d => d.2 = true) with
      | none => exact hcanceled
      | some d =>
        have hmem := List.mem_of_find?_eq_some hfind
        have happlies : d.2 = true := by simpa using List.find?_some hfind
        obtain ⟨job, hjob, hpending, -⟩ := hall d hmem
        -- the claimed row is not one of those the same statement cancels
        have hother : d.1 ∉ (due.filter (fun d => d.2 = false)).map Prod.fst := by
          intro hin
          obtain ⟨d', hd', hkey⟩ := List.mem_map.mp hin
          obtain ⟨hmem', hstale⟩ := List.mem_filter.mp hd'
          have hsame : d' = d := List.inj_on_of_nodup_map hnodup hmem' hmem hkey
          subst hsame
          simp [happlies] at hstale
        have hkept := (foldl_cancel_get? _ s.jobs hother).trans hjob
        exact hcanceled.claim now hkept hpending answered
    · simp only [if_neg hdue]
      exact h
  | notBuilt index lastError =>
    cases hd : s.deliveries[index]? with
    | none => simpa only [Mailing.act, hd] using h
    | some d =>
      simp only [Mailing.act, hd]
      split_ifs with hphase
      · have hok := h.phases index d hd
        unfold Delivery.PhaseOk at hok
        rw [hphase] at hok
        refine h.setDelivery hd ?_ rfl ?_
        · exact Delivery.active_of_phase hphase (by simp)
        · exact .inl hok
      · exact h
  | hand index =>
    cases hd : s.deliveries[index]? with
    | none => simpa only [Mailing.act, hd] using h
    | some d =>
      simp only [Mailing.act, hd]
      split_ifs with hphase
      · refine h.setDelivery hd ?_ rfl rfl
        exact Delivery.active_of_phase hphase (by simp)
      · exact h
  | answer index answer =>
    cases hd : s.deliveries[index]? with
    | none => simpa only [Mailing.act, hd] using h
    | some d =>
      simp only [Mailing.act, hd]
      split_ifs with hphase
      · have hactive : d.Active := Delivery.active_of_phase hphase (by simp)
        cases answer with
        | accepted => exact h.setDelivery hd hactive rfl rfl
        | forbidden lastError => exact h.setDelivery hd hactive rfl (.inr rfl)
        | wait lastError ms => exact h.setDelivery hd hactive rfl (.inr rfl)
        | refused lastError => exact h.setDelivery hd hactive rfl (.inr rfl)
        | unknown =>
          refine h.setDelivery hd hactive rfl ?_
          show Handing.unknown ≠ Handing.inWork
          decide
      · exact h
  | crash index =>
    cases hd : s.deliveries[index]? with
    | none => simpa only [Mailing.act, hd] using h
    | some d => simpa only [Mailing.act, hd] using h.crash hd
  | settle index now =>
    cases hd : s.deliveries[index]? with
    | none => simpa only [Mailing.act, hd] using h
    | some d =>
      cases hphase : d.phase with
      | settling outcome =>
        simp only [Mailing.act, hd, hphase]
        exact h.settle hd hphase now
      | building => simpa only [Mailing.act, hd, hphase] using h
      | sending => simpa only [Mailing.act, hd, hphase] using h
      | «over» => simpa only [Mailing.act, hd, hphase] using h
  | settleFailed index =>
    cases hd : s.deliveries[index]? with
    | none => simpa only [Mailing.act, hd] using h
    | some d =>
      cases hphase : d.phase with
      | settling outcome =>
        simp only [Mailing.act, hd, hphase]
        have hanswered : d.handing ≠ .inWork := h.settling_answered hd hphase
        refine h.setDelivery hd ?_ rfl hanswered
        exact Delivery.active_of_phase hphase (by simp)
      | building => simpa only [Mailing.act, hd, hphase] using h
      | sending => simpa only [Mailing.act, hd, hphase] using h
      | «over» => simpa only [Mailing.act, hd, hphase] using h
  | cancel userId except => exact h.jobs (quiet_cancel config.maxAttempts userId except s.jobs)

/-- The invariant of every run. -/
theorem Inv.run {config : MailingConfig} (hpos : 0 < config.maxAttempts)
    (h : Inv config.maxAttempts s) (acts : List Act) :
    Inv config.maxAttempts (Lib.run (Mailing.act config) s acts) :=
  run_induction h (fun _ e hs => hs.act hpos e) acts

/-! ### What the runs say -/

/-- What every element before another has, every element but the last has. -/
theorem pairwise_dropLast {α : Type} {p : α → Prop} {l : List α} (h : l.Pairwise (fun a _ => p a)) :
    ∀ a ∈ l.dropLast, p a := by
  induction l with
  | nil => intro a ha; cases ha
  | cons b l ih =>
    rw [List.pairwise_cons] at h
    cases l with
    | nil => intro a ha; cases ha
    | cons c l =>
      intro a ha
      rw [List.dropLast_cons_cons] at ha
      rcases List.mem_cons.mp ha with rfl | ha
      · exact h.1 c (List.mem_cons_self)
      · exact ih h.2 a ha

/-- What has come of the handings of one key, in order. -/
def handings (s : Mailing) (key : JobKey) : List Handing :=
  (s.deliveries.filter (fun d => d.key = key ∧ d.handing ≠ .none)).map Delivery.handing

end Mailing

/-- Telegram took it, or nobody knows. -/
def Handing.MayHaveReached (handing : Handing) : Prop := handing = .accepted ∨ handing = .unknown

theorem Handing.MayHaveReached.not_clear {d : Delivery} (h : d.handing.MayHaveReached) : ¬ d.Clear := by
  rintro (hclear | hclear) <;> rcases h with h | h <;> rw [h] at hclear <;> cases hclear

/-- One delivery, later on: its key and the end of its handing are kept. -/
structure Delivery.Later (d d' : Delivery) : Prop where
  key : d'.key = d.key
  reached : ¬ d.Active ∨ d.handing.MayHaveReached → d'.handing = d.handing
  stopped : ¬ d.Active → ¬ d'.Active

theorem Delivery.Later.refl (d : Delivery) : d.Later d := ⟨rfl, fun _ => rfl, fun h => h⟩

theorem Delivery.Later.trans {a b c : Delivery} (hab : a.Later b) (hbc : b.Later c) : a.Later c where
  key := hbc.key.trans hab.key
  reached h := by
    have hb := hab.reached h
    refine (hbc.reached ?_).trans hb
    rcases h with hover | hreached
    · exact .inl (hab.stopped hover)
    · rw [hb]
      exact .inr hreached
  stopped h := hbc.stopped (hab.stopped h)

/-- A delivery that is not handed over yet, or is being handed over, may change. -/
theorem Delivery.Later.of_active {d d' : Delivery} (hkey : d'.key = d.key) (hactive : d.Active)
    (hnot : ¬ d.handing.MayHaveReached) : d.Later d' where
  key := hkey
  reached h := by
    rcases h with hover | hreached
    · exact absurd hactive hover
    · exact absurd hreached hnot
  stopped hover := absurd hactive hover

/-- A step that leaves the handing. -/
theorem Delivery.Later.of_handing {d d' : Delivery} (hkey : d'.key = d.key)
    (hhanding : d'.handing = d.handing) (hover : d.Active) : d.Later d' :=
  ⟨hkey, fun _ => hhanding, fun h => absurd hover h⟩

namespace Mailing

variable {maxAttempts : ℕ} {s : Mailing}

theorem later_set {i index : ℕ} {d a b : Delivery} (hd : s.deliveries[i]? = some d)
    (ha : s.deliveries[index]? = some a) (hlater : a.Later b) :
    ∃ d', (s.deliveries.set index b)[i]? = some d' ∧ d.Later d' := by
  rw [List.getElem?_set]
  by_cases hindex : index = i
  · subst hindex
    obtain ⟨hlt, -⟩ := List.getElem?_eq_some_iff.mp ha
    rw [hd] at ha
    injection ha with ha
    subst ha
    exact ⟨b, by simp [hlt], hlater⟩
  · rw [if_neg hindex]
    exact ⟨d, hd, Delivery.Later.refl d⟩

theorem later_refl {i : ℕ} {d : Delivery} (hd : s.deliveries[i]? = some d) :
    ∃ d', s.deliveries[i]? = some d' ∧ d.Later d' :=
  ⟨d, hd, Delivery.Later.refl d⟩

theorem not_reached_inWork {d : Delivery} (h : d.handing = .inWork) : ¬ d.handing.MayHaveReached := by
  rintro (hreached | hreached) <;> rw [h] at hreached <;> cases hreached

theorem Inv.later_crash (h : Inv maxAttempts s) {index : ℕ} {a : Delivery}
    (ha : s.deliveries[index]? = some a) : a.Later (crashedDelivery a) := by
  have hok := h.phases index a ha
  unfold Delivery.PhaseOk at hok
  unfold crashedDelivery
  cases hphase : a.phase with
  | building =>
    refine .of_handing rfl rfl ?_
    exact Delivery.active_of_phase hphase (by simp)
  | sending =>
    rw [hphase] at hok
    refine .of_active rfl ?_ (not_reached_inWork hok)
    exact Delivery.active_of_phase hphase (by simp)
  | settling outcome => exact Delivery.Later.refl a
  | «over» => exact Delivery.Later.refl a

/-- **One event, seen from one delivery.** -/
theorem Inv.later_act {config : MailingConfig} (h : Inv maxAttempts s) (e : Act) {i : ℕ} {d : Delivery}
    (hd : s.deliveries[i]? = some d) :
    ∃ d', (s.act config e).deliveries[i]? = some d' ∧ d.Later d' := by
  cases e with
  | plan facts => exact later_refl hd
  | claim now due answered =>
    unfold Mailing.act
    by_cases hdue : (due.map Prod.fst).Nodup ∧ ∀ d ∈ due, s.IsDue now d.1
    · simp only [if_pos hdue]
      cases due.find? (fun d => d.2 = true) with
      | none => exact later_refl hd
      | some found =>
        obtain ⟨hlt, -⟩ := List.getElem?_eq_some_iff.mp hd
        refine ⟨d, ?_, Delivery.Later.refl d⟩
        show (s.deliveries ++ _)[i]? = some d
        rw [List.getElem?_append_left hlt]
        exact hd
    · simp only [if_neg hdue]
      exact later_refl hd
  | notBuilt index lastError =>
    cases ha : s.deliveries[index]? with
    | none => simpa only [Mailing.act, ha] using later_refl hd
    | some a =>
      simp only [Mailing.act, ha]
      split_ifs with hphase
      · refine later_set hd ha (.of_handing rfl rfl ?_)
        exact Delivery.active_of_phase hphase (by simp)
      · exact later_refl hd
  | hand index =>
    cases ha : s.deliveries[index]? with
    | none => simpa only [Mailing.act, ha] using later_refl hd
    | some a =>
      simp only [Mailing.act, ha]
      split_ifs with hphase
      · have hok := h.phases index a ha
        unfold Delivery.PhaseOk at hok
        rw [hphase] at hok
        refine later_set hd ha (.of_active rfl ?_ (fun hreached => hreached.not_clear (.inl hok)))
        exact Delivery.active_of_phase hphase (by simp)
      · exact later_refl hd
  | answer index answer =>
    cases ha : s.deliveries[index]? with
    | none => simpa only [Mailing.act, ha] using later_refl hd
    | some a =>
      simp only [Mailing.act, ha]
      split_ifs with hphase
      · have hok := h.phases index a ha
        unfold Delivery.PhaseOk at hok
        rw [hphase] at hok
        have hkey : (answeredDelivery config a answer).key = a.key := by cases answer <;> rfl
        refine later_set hd ha (.of_active hkey ?_ (not_reached_inWork hok))
        exact Delivery.active_of_phase hphase (by simp)
      · exact later_refl hd
  | crash index =>
    cases ha : s.deliveries[index]? with
    | none => simpa only [Mailing.act, ha] using later_refl hd
    | some a => simpa only [Mailing.act, ha, Mailing.setDelivery] using later_set hd ha (h.later_crash ha)
  | settle index now =>
    cases ha : s.deliveries[index]? with
    | none => simpa only [Mailing.act, ha] using later_refl hd
    | some a =>
      cases hphase : a.phase with
      | settling outcome =>
        simp only [Mailing.act, ha, hphase]
        refine later_set hd ha (.of_handing rfl rfl ?_)
        exact Delivery.active_of_phase hphase (by simp)
      | _ => simpa only [Mailing.act, ha, hphase] using later_refl hd
  | settleFailed index =>
    cases ha : s.deliveries[index]? with
    | none => simpa only [Mailing.act, ha] using later_refl hd
    | some a =>
      cases hphase : a.phase with
      | settling outcome =>
        simp only [Mailing.act, ha, hphase]
        refine later_set hd ha (.of_handing rfl rfl ?_)
        exact Delivery.active_of_phase hphase (by simp)
      | _ => simpa only [Mailing.act, ha, hphase] using later_refl hd
  | cancel userId except => exact later_refl hd

/-- A delivery of a run is there in every longer one. -/
theorem Inv.later_run {config : MailingConfig} (hpos : 0 < config.maxAttempts)
    (h : Inv config.maxAttempts s) (acts : List Act) {i : ℕ} {d : Delivery}
    (hd : s.deliveries[i]? = some d) :
    ∃ d', (Lib.run (Mailing.act config) s acts).deliveries[i]? = some d' ∧ d.Later d' := by
  have hboth : Inv config.maxAttempts (Lib.run (Mailing.act config) s acts) ∧
      ∃ d', (Lib.run (Mailing.act config) s acts).deliveries[i]? = some d' ∧ d.Later d' := by
    refine run_induction (P := fun w : Mailing => Inv config.maxAttempts w ∧
      ∃ d', w.deliveries[i]? = some d' ∧ d.Later d') ⟨h, d, hd, Delivery.Later.refl d⟩ ?_ acts
    rintro w e ⟨hw, d', hd', hlater⟩
    obtain ⟨d'', hd'', hlater'⟩ := hw.later_act e hd'
    exact ⟨hw.act hpos e, d'', hd'', hlater.trans hlater'⟩
  exact hboth.2

/-- Of the handings of one key every one but the last was refused. -/
theorem Inv.refused_before (h : Inv maxAttempts s) (key : JobKey) :
    ∀ handing ∈ (s.handings key).dropLast, handing = .refused := by
  have hearlier : s.deliveries.Pairwise (fun a b => a.key = b.key → ¬ a.Active ∧ a.Clear) := by
    rw [List.pairwise_iff_getElem]
    intro i j hi hj hij
    exact h.earlier i j _ _ hij (List.getElem?_eq_getElem hi) (List.getElem?_eq_getElem hj)
  have hrefused : (s.handings key).Pairwise (fun handing _ => handing = .refused) := by
    unfold handings
    rw [List.pairwise_map, List.pairwise_filter]
    refine hearlier.imp (fun {a b} hab ha hb => ?_)
    obtain ⟨hakey, hhanded⟩ := of_decide_eq_true ha
    obtain ⟨hbkey, -⟩ := of_decide_eq_true hb
    rcases (hab (hakey.trans hbkey.symm)).2 with hnone | hrefused
    · exact absurd hnone hhanded
    · exact hrefused
  exact pairwise_dropLast hrefused

/-- One sender at most works on a key. -/
theorem Inv.one_sender (h : Inv maxAttempts s) {i j : ℕ} {a b : Delivery} (ha : s.deliveries[i]? = some a)
    (hb : s.deliveries[j]? = some b) (hkey : a.key = b.key) (hactive : a.Active) (hactive' : b.Active) :
    i = j := by
  rcases lt_trichotomy i j with hlt | heq | hgt
  · exact absurd hactive (h.earlier i j a b hlt ha hb hkey).1
  · exact heq
  · exact absurd hactive' (h.earlier j i b a hgt hb ha hkey.symm).1

end Mailing

/-- What holds of the mailings at every point. -/
structure MailingSound (maxAttempts : ℕ) (s : Mailing) : Prop where
  oneJob : s.jobs.keys.Nodup
  oneSender : ∀ (i j : ℕ) (a b : Delivery), s.deliveries[i]? = some a → s.deliveries[j]? = some b →
    a.key = b.key → a.Active → b.Active → i = j
  refusedBefore : ∀ key, ∀ handing ∈ (s.handings key).dropLast, handing = .refused
  attempts : ∀ key job, s.jobs.get? key = some job →
    job.attempts ≤ maxAttempts ∧ (job.attempts = maxAttempts → job.status = .failed)

/-- A delivery that may have reached its user, later on: it is not handed over again, no other of its key
is, and its job stays `sent`. -/
structure NeverAgain (s s' : Mailing) (i : ℕ) (d : Delivery) : Prop where
  same : ∃ d', s'.deliveries[i]? = some d' ∧ d'.key = d.key ∧ d'.handing = d.handing
  noOther : ∀ (j : ℕ) (d' : Delivery), s'.deliveries[j]? = some d' → d'.key = d.key →
    j ≤ i ∧ ∃ e, s.deliveries[j]? = some e ∧ e.key = d.key ∧ d'.handing = e.handing
  stays : ∃ job, s'.jobs.get? d.key = some job ∧ job.status = .sent

theorem Mailing.Inv.sound {maxAttempts : ℕ} {s : Mailing} (h : Inv maxAttempts s) :
    MailingSound maxAttempts s where
  oneJob := s.jobs.nodup
  oneSender i j a b ha hb hkey hactive hactive' := h.one_sender ha hb hkey hactive hactive'
  refusedBefore := h.refused_before
  attempts key job hjob := by
    have hok := h.attempts key job hjob
    by_cases hfailed : job.status = .failed
    · exact ⟨hok.failed hfailed, fun _ => hfailed⟩
    · have hbelow := hok.others hfailed
      exact ⟨hbelow.le, fun heq => absurd heq hbelow.ne⟩

theorem Mailing.Inv.neverAgain {config : MailingConfig} {s : Mailing} (hpos : 0 < config.maxAttempts)
    (h : Inv config.maxAttempts s) (acts : List Mailing.Act) {i : ℕ} {d : Delivery}
    (hd : s.deliveries[i]? = some d) (hreached : d.handing.MayHaveReached) :
    NeverAgain s (Lib.run (Mailing.act config) s acts) i d := by
  have hlater := h.run hpos acts
  obtain ⟨d', hd', hd'later⟩ := h.later_run hpos acts hd
  have hsame := hd'later.reached (.inr hreached)
  have hnot : ¬ d'.Clear := by
    have hreached' : d'.handing.MayHaveReached := by
      rw [hsame]
      exact hreached
    exact hreached'.not_clear
  refine ⟨⟨d', hd', hd'later.key, hsame⟩, fun j e' he' hkey => ?_, ?_⟩
  · have hle : j ≤ i := by
      by_contra hgt
      exact hnot (hlater.earlier i j d' e' (by omega) hd' he' (hd'later.key.trans hkey.symm)).2
    obtain ⟨hlt, -⟩ := List.getElem?_eq_some_iff.mp hd
    have he : s.deliveries[j]? = some s.deliveries[j] := List.getElem?_eq_getElem (by omega)
    obtain ⟨e'', he'', helater⟩ := h.later_run hpos acts he
    rw [he'] at he''
    injection he'' with he''
    subst he''
    have hekey : s.deliveries[j].key = d.key := helater.key.symm.trans hkey
    refine ⟨hle, s.deliveries[j], he, hekey, helater.reached ?_⟩
    rcases Nat.eq_or_lt_of_le hle with heq | hlt'
    · -- the delivery itself
      subst heq
      rw [hd] at he
      injection he with he
      rw [← he]
      exact .inr hreached
    · exact .inl (h.earlier j i _ d hlt' he hd hekey).1
  · obtain ⟨job, hjob, hrow⟩ := hlater.rows i d' hd'
    rw [hd'later.key] at hjob
    exact ⟨job, hjob, hrow.sent hnot⟩

/-- **A mailing is never sent again unless its send was definitely refused**, in any run. -/
theorem mailing_once (config : MailingConfig) (hpos : 0 < config.maxAttempts)
    (acts more : List Mailing.Act) :
    MailingSound config.maxAttempts (run (Mailing.act config) Mailing.start acts) ∧
      ∀ (i : ℕ) (d : Delivery), (run (Mailing.act config) Mailing.start acts).deliveries[i]? = some d →
        d.handing.MayHaveReached →
          NeverAgain (run (Mailing.act config) Mailing.start acts)
            (run (Mailing.act config) Mailing.start (acts ++ more)) i d := by
  have hinv : Mailing.Inv config.maxAttempts (run (Mailing.act config) Mailing.start acts) :=
    (Mailing.Inv.start config.maxAttempts).run hpos acts
  refine ⟨hinv.sound, fun i d hd hreached => ?_⟩
  rw [run_append]
  exact hinv.neverAgain hpos more hd hreached

/-- Of three attempts the first was refused and the second has no answer. -/
theorem mailing_once_unanswered :
    let config : MailingConfig := ⟨3, 60000, fun _ => true⟩
    let key : JobKey := ⟨1, "registration"⟩
    let acts : List Mailing.Act := [.plan [⟨key, "registration", 5⟩], .claim 6 [(key, true)] true,
      .hand 0, .answer 0 (.wait "429" 10), .settle 0 7, .claim 20 [(key, true)] true, .hand 1, .answer 1 .unknown]
    let again : List Mailing.Act := [.plan [⟨key, "registration", 5⟩], .claim 90000 [(key, true)] true]
    (run (Mailing.act config) Mailing.start acts).deliveries[1]? = some ⟨key, .over, .unknown⟩ ∧
      NeverAgain (run (Mailing.act config) Mailing.start acts)
        (run (Mailing.act config) Mailing.start (acts ++ again)) 1 ⟨key, .over, .unknown⟩ := by
  intro config key acts again
  have hd : (run (Mailing.act config) Mailing.start acts).deliveries[1]? =
      some ⟨key, .over, .unknown⟩ := by decide +kernel
  exact ⟨hd, (mailing_once config (by decide) acts again).2 1 _ hd (.inr rfl)⟩

end Binarius
