import Snoozer.PreflightVerdict

/-! Whether a store trial can be won at all: the helper lets its delay pass between the handoff
and the store, and the wait has to end below the threshold. -/
namespace Snoozer
open Interactive

abbrev SoloResult : Option ℕ → Type
  | none => PreflightTrialEvidence
  | some _ => Unit

/-- One store trial and its helper; a helper of another number never begins. -/
def soloTrial (config : HardwareConfig) (baselineWait : ℕ) :
    Pool (Option ℕ) TrialOp TrialAns SoloResult
  | none => (preflightTrial config baselineWait).handle fun op => Prog.perform (TrialOp.waiter op)
  | some _ => preflightHelper

/-- Some run of the trial verifies a store wake. -/
def Winnable (config : HardwareConfig) (baselineWait : ℕ) : Prop :=
  ∃ c s evidence, PoolReach trialParties (soloTrial config baselineWait, .initial) (c, s) ∧
    c none = .ret evidence ∧ evidence.verifiedStoreWake = true

/-- A helper on its way to the store; `due` once its delay has passed. -/
inductive DelayPhase where
  | idle
  | polling (delay : ℕ)
  | handed (delay : ℕ)
  | delaying (delay since : ℕ)
  | due
  deriving DecidableEq, Repr

def delayProtocol : Protocol TrialOp TrialAns DelayPhase where
  next
    | .idle, .begin, (delay : ℕ) => some (.polling delay)
    | .polling delay, .loadHandoff, (handedOff : Bool) =>
      some (if handedOff then .handed delay else .polling delay)
    | .polling delay, .now, _ | .polling delay, .spin, _ | .polling delay, .send _, _ =>
      some (.polling delay)
    | .handed delay, .now, (since : ℕ) => some (.delaying delay since)
    | .delaying delay since, .now, (now : ℕ) =>
      some (if now - since < delay then .delaying delay since else .due)
    | .delaying delay since, .spin, _ => some (.delaying delay since)
    | .due, .storeTarget, _ | .due, .now, _ | .due, .send _, _ => some .due
    | _, _, _ => none

/-- The helper spins for its delay and stores the target. -/
theorem follows_delay : delayProtocol.Follows preflightHelper .idle fun _ _ => True := by
  apply Protocol.follows_perform
  intro delay
  refine ⟨.polling delay, rfl, Protocol.follows_perform fun started => ⟨.polling delay, rfl, ?_⟩⟩
  apply Protocol.follows_loop
  apply Protocol.follows_perform
  intro handedOff
  cases handedOff with
  | true =>
    refine ⟨.handed delay, rfl, Protocol.follows_ret ?_⟩
    apply Protocol.follows_perform
    intro since
    refine ⟨.delaying delay since, rfl, ?_⟩
    apply Protocol.follows_loop
    apply Protocol.follows_perform
    intro now
    split
    · next h =>
      refine ⟨.delaying delay since, congrArg some (if_pos h), ?_⟩
      exact Protocol.follows_perform fun _ => ⟨_, rfl, Protocol.follows_ret rfl⟩
    · next h =>
      refine ⟨.due, congrArg some (if_neg h), ?_⟩
      apply Protocol.follows_ret
      apply Protocol.follows_perform fun _ => ⟨.due, rfl, ?_⟩
      apply Protocol.follows_perform fun published => ⟨.due, rfl, ?_⟩
      exact Protocol.follows_call fun _ => ⟨.due, rfl, Protocol.follows_ret trivial⟩
  | false =>
    refine ⟨.polling delay, rfl, Protocol.follows_perform fun now => ⟨.polling delay, rfl, ?_⟩⟩
    split
    · apply Protocol.follows_ret
      exact Protocol.follows_call fun _ => ⟨.polling delay, rfl, Protocol.follows_ret trivial⟩
    · exact Protocol.follows_perform fun _ => ⟨.polling delay, rfl, Protocol.follows_ret rfl⟩

/-- One trial is started, with the given delay, before anything else happens. -/
def startsOnce (producerDelay : ℕ) : Protocol PreflightOp PreflightAns Bool where
  next
    | false, .startTrial delay, _ => if delay = producerDelay then some true else none
    | false, _, _ => none
    | true, .startTrial _, _ => none
    | true, _, _ => some true

/-- A trial starts its helper once. -/
theorem follows_startsOnce (config : HardwareConfig) (baselineWait : ℕ) :
    (startsOnce (producerDelay baselineWait)).Follows (preflightTrial config baselineWait) false
      fun _ started => started = true := by
  apply Protocol.follows_perform
  intro _
  refine ⟨true, if_pos rfl, ?_⟩
  have hstays : ∀ op (φ : Bool) x, (∀ delay, op ≠ .startTrial delay) → φ = true →
      ∃ φ', (startsOnce (producerDelay baselineWait)).next φ op x = some φ' ∧ φ' = true := by
    rintro op _ x hop rfl
    cases op with
    | startTrial delay => exact absurd rfl (hop delay)
    | _ => exact ⟨true, rfl, rfl⟩
  have hwait : (waiting (preflightWaitOnce config preflightTarget)).Makes
      fun op => ∀ delay, op ≠ .startTrial delay := by
    apply Prog.Makes.handle _ (Prog.makes_true _)
    exact fun op _ => ⟨fun _ h => (nomatch h), fun _ => trivial⟩
  apply Protocol.follows_makes hstays ?_ rfl
  refine ⟨fun _ h => (nomatch h), fun started => hwait.bind fun observed => ?_⟩
  exact ⟨fun _ h => (nomatch h), fun _ => ⟨fun _ h => (nomatch h), fun _ => trivial⟩⟩

def soloProtocol (producerDelay : ℕ) : Protocol PreflightOp PreflightAns (ProbePhase × Bool) :=
  probeProtocol.both (startsOnce producerDelay)

/-- The same on the calls of the pool. -/
def soloWaiter (producerDelay : ℕ) : Protocol TrialOp TrialAns (ProbePhase × Bool) where
  next
    | φ, .waiter op, x => (soloProtocol producerDelay).next φ op x
    | _, _, _ => none

abbrev SoloPhases : Option ℕ → Type
  | none => ProbePhase × Bool
  | some _ => DelayPhase

def soloProtocols (producerDelay : ℕ) : (r : Option ℕ) → Protocol TrialOp TrialAns (SoloPhases r)
  | none => soloWaiter producerDelay
  | some _ => delayProtocol

def soloPhases : (r : Option ℕ) → SoloPhases r
  | none => (⟨[], [], none⟩, false)
  | some _ => .idle

/-- The evidence is that of the one trial. -/
def SoloEnded (baselineWait : ℕ) : (r : Option ℕ) → SoloResult r → SoloPhases r → Prop
  | none => fun evidence φ => ∃ record ∈ φ.1.records, evidence = record.evidence baselineWait
  | some _ => fun _ _ => True

/-- The parties of one trial obey their protocols. -/
theorem soloTrial_follows (config : HardwareConfig) (baselineWait : ℕ) (r : Option ℕ) :
    (soloProtocols (producerDelay baselineWait) r).Follows (soloTrial config baselineWait r)
      (soloPhases r) (SoloEnded baselineWait r) := by
  cases r with
  | none =>
    have hcall : ∀ (φ ψ : ProbePhase × Bool) (op : PreflightOp), φ = ψ →
        (soloProtocol (producerDelay baselineWait)).Allows (some op) φ →
        (soloWaiter (producerDelay baselineWait)).Follows (Prog.perform (TrialOp.waiter op)) ψ
          fun x ψ' => ∃ φ', (soloProtocol (producerDelay baselineWait)).next φ op x = some φ' ∧
            φ' = ψ' := by
      rintro φ _ op rfl hallows
      apply Protocol.follows_call
      intro x
      obtain ⟨φ', hnext⟩ := Option.isSome_iff_exists.mp (hallows op rfl x)
      exact ⟨φ', hnext, Protocol.follows_ret ⟨φ', hnext, rfl⟩⟩
    have hboth := Protocol.Follows.both
      (@ProbePhase.follows_preflightTrial [] [] config baselineWait)
      (follows_startsOnce config baselineWait)
    have hfollows := Protocol.Follows.handle hcall (preflightTrial_loopFree config baselineWait)
      hboth rfl
    apply Protocol.follows_mono hfollows
    rintro evidence _ ⟨φ, ⟨⟨record, hφ, hevidence⟩, _⟩, rfl⟩
    refine ⟨record, ?_, hevidence⟩
    rw [hφ]
    exact List.mem_singleton_self _
  | some trial => exact follows_delay

/-- When the waiter of the trial has read its first clock. -/
def ProbePhase.begun (φ : ProbePhase) : Option ℕ := match φ.stage with
  | some .spawned => none
  | some (.waiting started _ _ _) => some started
  | some (.finished started _ _) => some started
  | none => φ.records.head?.map TrialRecord.started

/-- The delay has passed since the trial began. -/
def Elapsed (delay : ℕ) (φ : ProbePhase) (clock : ℕ) : Prop :=
  ∃ started, φ.begun = some started ∧ started + delay ≤ clock

/-- A value that is seen is seen after the delay. -/
def TrialStage.Timed (delay clock : ℕ) : TrialStage → Prop
  | .spawned => True
  | .waiting started observed _ _ => started ≤ clock ∧ (observed ≠ 0 → started + delay ≤ clock)
  | .finished started observed waitFinished => observed ≠ 0 → started + delay ≤ waitFinished

def DelayPhase.Timed (delay : ℕ) (φ : ProbePhase) (clock : ℕ) : DelayPhase → Prop
  | .idle => True
  | .polling delay' => delay' = delay
  | .handed delay' => delay' = delay ∧ Elapsed 0 φ clock
  | .delaying delay' since => delay' = delay ∧ since ≤ clock ∧ Elapsed 0 φ since
  | .due => Elapsed delay φ clock

structure DelayInv (delay : ℕ) (φ : ProbePhase × Bool) (h : ℕ → DelayPhase) (s : TrialWorld) :
    Prop where
  fresh : φ.2 = false → s.trials = 0 ∧ φ.1 = ⟨[], [], none⟩
  single : φ.2 = true → s.trials = 1 ∧ s.delay 1 = delay ∧ φ.1.trial = 1
  stage : ∀ stage, φ.1.stage = some stage → stage.Timed delay s.clock
  records : ∀ record ∈ φ.1.records, record.observed ≠ 0 →
    record.started + delay ≤ record.waitFinished
  handoff : ∀ k, s.handoff k = true → Elapsed 0 φ.1 s.clock
  target : ∀ k, s.target k ≠ 0 → Elapsed delay φ.1 s.clock
  helper : ∀ k, (h k).Timed delay φ.1 s.clock

section DelayInv

variable {delay clock clock' : ℕ} {φ φ' : ProbePhase × Bool} {h h' : ℕ → DelayPhase}
  {s s' : TrialWorld}

theorem Elapsed.mono {ψ ψ' : ProbePhase} (he : Elapsed delay ψ clock) (hclock : clock ≤ clock')
    (hbegun : ∀ t, ψ.begun = some t → ψ'.begun = some t) : Elapsed delay ψ' clock' := by
  obtain ⟨started, hstarted, hle⟩ := he
  exact ⟨started, hbegun started hstarted, hle.trans hclock⟩

theorem DelayPhase.Timed.mono {ψ ψ' : ProbePhase} {p : DelayPhase} (hp : p.Timed delay ψ clock)
    (hclock : clock ≤ clock') (hbegun : ∀ t, ψ.begun = some t → ψ'.begun = some t) :
    p.Timed delay ψ' clock' := by
  cases p with
  | idle => trivial
  | polling delay' => exact hp
  | handed delay' => exact ⟨hp.1, hp.2.mono hclock hbegun⟩
  | delaying delay' since => exact ⟨hp.1, hp.2.1.trans hclock, hp.2.2.mono le_rfl hbegun⟩
  | due => exact Elapsed.mono hp hclock hbegun

theorem TrialStage.Timed.mono {stage : TrialStage} (hs : stage.Timed delay clock)
    (hclock : clock ≤ clock') : stage.Timed delay clock' := by
  cases stage with
  | spawned => trivial
  | waiting started observed armed handedOff =>
    exact ⟨hs.1.trans hclock, fun hv => (hs.2 hv).trans hclock⟩
  | finished started observed waitFinished => exact hs

/-- Once a trial is on its way, no call of the waiter starts another one. -/
theorem DelayInv.under (hinv : DelayInv delay φ h s) {stage stage' : TrialStage}
    (hφ : φ.1.stage = some stage)
    (hbegun : ∀ t, φ.1.begun = some t → (φ.1.moved (.inl stage')).begun = some t)
    (hclock : s.clock ≤ s'.clock) (htrials : s'.trials = s.trials) (hdelay : s'.delay = s.delay)
    (hstage : stage'.Timed delay s'.clock)
    (hhandoff : ∀ k, s'.handoff k = true → s.handoff k = true ∨
      Elapsed 0 (φ.1.moved (.inl stage')) s'.clock)
    (htarget : s'.target = s.target) :
    DelayInv delay (φ.1.moved (.inl stage'), φ.2) h s' where
  fresh ho := by
    have hnone := congrArg ProbePhase.stage (hinv.fresh ho).2
    rw [hφ] at hnone
    exact nomatch hnone
  single ho := by
    obtain ⟨hone, hd, htrial⟩ := hinv.single ho
    rw [htrials, hdelay]
    exact ⟨hone, hd, (ProbePhase.trial_stage hφ).trans htrial⟩
  stage := by
    rintro _ ⟨⟩
    exact hstage
  records := hinv.records
  handoff k hk := by
    rcases hhandoff k hk with hk | hk
    · exact (hinv.handoff k hk).mono hclock hbegun
    · exact hk
  target k hk := by
    rw [htarget] at hk
    exact (hinv.target k hk).mono hclock hbegun
  helper k := (hinv.helper k).mono hclock hbegun

/-- A wait changes the handoff flags and the record only. -/
theorem actWait_frame {op : WaitOp ℕ} {x : WaitAns ℕ op} (hact : TrialWorld.actWait op s x s') :
    s'.clock = s.clock ∧ s'.trials = s.trials ∧ s'.delay = s.delay ∧ s'.target = s.target := by
  have hrecord : ∀ (c : Prop) [Decidable c] (e : TrialEvent), s' = (if c then s.record e else s) →
      s'.clock = s.clock ∧ s'.trials = s.trials ∧ s'.delay = s.delay ∧ s'.target = s.target := by
    intro c _ e hs'
    rw [hs']
    split
    · exact ⟨rfl, rfl, rfl, rfl⟩
    · exact ⟨rfl, rfl, rfl, rfl⟩
  cases op with
  | load address ordering => exact hrecord _ _ hact.2
  | monitorx address => exact hrecord _ _ hact
  | umonitor address => exact hrecord _ _ hact
  | storeHandoff =>
    have hs' : s' = { s.record (.handedOff s.trials) with
        handoff := Function.update s.handoff s.trials true } := hact
    rw [hs']
    exact ⟨rfl, rfl, rfl, rfl⟩
  | _ =>
    have hs' : s' = s := hact
    rw [hs']
    exact ⟨rfl, rfl, rfl, rfl⟩

/-- What the waiter has seen last is what it had seen before, or its target. -/
theorem waits_observed {started observed : ℕ} {armed handedOff : Bool} {op : WaitOp ℕ}
    {x : WaitAns ℕ op} {stage : TrialStage}
    (hnext : TrialStage.waits started observed armed handedOff op x = some stage)
    (hact : TrialWorld.actWait op s x s') : ∃ v armed' handedOff',
      stage = .waiting started v armed' handedOff' ∧ (v = observed ∨ v = s.target s.trials) := by
  cases op with
  | load address ordering =>
    simp only [TrialStage.waits] at hnext
    split at hnext
    · next haddress =>
      refine ⟨x, armed, handedOff, (Option.some.inj hnext).symm, Or.inr ?_⟩
      rw [hact.1, TrialWorld.read, if_pos haddress]
    · cases hnext
  | monitorx address =>
    simp only [TrialStage.waits] at hnext
    split at hnext
    · exact ⟨observed, true, handedOff, (Option.some.inj hnext).symm, Or.inl rfl⟩
    · cases hnext
  | umonitor address =>
    simp only [TrialStage.waits] at hnext
    split at hnext
    · exact ⟨observed, true, handedOff, (Option.some.inj hnext).symm, Or.inl rfl⟩
    · cases hnext
  | storeHandoff =>
    simp only [TrialStage.waits] at hnext
    split at hnext
    · exact ⟨observed, armed, true, (Option.some.inj hnext).symm, Or.inl rfl⟩
    · cases hnext
  | mwaitx cycles hint => exact ⟨observed, armed, handedOff, (Option.some.inj hnext).symm, Or.inl rfl⟩
  | umwaitC01 deadline => exact ⟨observed, armed, handedOff, (Option.some.inj hnext).symm, Or.inl rfl⟩
  | readTscOrdered => exact ⟨observed, armed, handedOff, (Option.some.inj hnext).symm, Or.inl rfl⟩
  | _ => cases hnext

/-- A call of the waiter keeps the invariant of the delay. -/
theorem DelayInv.waits (hinv : DelayInv delay φ h s) {started observed : ℕ}
    {armed handedOff : Bool} (hφ : φ.1.stage = some (.waiting started observed armed handedOff))
    {op : WaitOp ℕ} {x : WaitAns ℕ op} {stage : TrialStage}
    (hnext : TrialStage.waits started observed armed handedOff op x = some stage)
    (hact : TrialWorld.actWait op s x s') :
    DelayInv delay (φ.1.moved (.inl stage), φ.2) h s' := by
  obtain ⟨hclock, htrials, hdelay, htarget⟩ := actWait_frame hact
  obtain ⟨v, armed', handedOff', rfl, hv⟩ := waits_observed hnext hact
  obtain ⟨hstarted, hseen⟩ := hinv.stage _ hφ
  have hbegun : φ.1.begun = some started := by rw [ProbePhase.begun, hφ]
  refine hinv.under hφ ?_ hclock.ge htrials hdelay ?_ ?_ htarget
  · intro t ht
    rw [← ht, hbegun]
    rfl
  · rw [hclock]
    refine ⟨hstarted, fun hne => ?_⟩
    rcases hv with rfl | rfl
    · exact hseen hne
    · -- The target is the helper's, who has let the delay pass.
      obtain ⟨t, ht, hle⟩ := hinv.target _ hne
      rw [hbegun] at ht
      cases ht
      exact hle
  · exact fun k _ => Or.inr ⟨started, rfl, by rw [hclock]; exact hstarted⟩

/-- The waiter's calls. -/
theorem DelayInv.waiter (hinv : DelayInv delay φ h s) {op : PreflightOp} {x : PreflightAns op}
    (hnext : (soloProtocol delay).next φ op x = some φ')
    (hact : TrialWorld.actWaiter op s x s') : DelayInv delay φ' h s' := by
  obtain ⟨ψ, o⟩ := φ
  obtain ⟨ψ', o'⟩ := φ'
  obtain ⟨hprobe, honce⟩ := Protocol.both_next.mp hnext
  dsimp only at hprobe honce
  cases o with
  | false =>
    cases op with
    | startTrial producerDelay =>
      simp only [startsOnce] at honce
      split at honce
      · next hdelay =>
        cases honce
        obtain ⟨htrials, hψ⟩ := hinv.fresh rfl
        dsimp only at hψ
        subst hdelay hψ
        cases hprobe
        have hs' : s' = { s with
            trials := s.trials + 1
            delay := Function.update s.delay (s.trials + 1) producerDelay } := hact
        subst hs'
        constructor
        · intro ho
          cases ho
        · refine fun _ => ⟨by rw [htrials], ?_, rfl⟩
          rw [htrials]
          exact Function.update_self 1 producerDelay s.delay
        · rintro _ ⟨⟩
          trivial
        · intro record hrecord
          cases hrecord
        · intro k hk
          obtain ⟨t, ht, _⟩ := hinv.handoff k hk
          cases ht
        · intro k hk
          obtain ⟨t, ht, _⟩ := hinv.target k hk
          cases ht
        · intro k
          apply (hinv.helper k).mono le_rfl
          intro t ht
          cases ht
      · cases honce
    | _ => cases honce
  | true =>
    obtain ⟨htrials, hdelay, htrial⟩ := hinv.single rfl
    dsimp only at htrials hdelay htrial
    have ho' : o' = true := by
      cases op with
      | startTrial producerDelay => cases honce
      | _ => exact (Option.some.inj honce).symm
    subst ho'
    cases hstage : ψ.stage with
    | none =>
      rw [probeProtocol_next_idle hstage] at hprobe
      have hlength : ψ.records.length = 1 := by simpa [ProbePhase.trial, hstage] using htrial
      cases op with
      | startTrial producerDelay => cases honce
      | instantNow =>
        have hprobe : (if ψ.records = [] then _ else none) = some ψ' := hprobe
        rw [if_neg (List.ne_nil_of_length_eq_add_one hlength)] at hprobe
        cases hprobe
      | wait op =>
        have hprobe : (if op.onBaseline then some ψ else none) = some ψ' := hprobe
        split at hprobe
        · next hop =>
          cases hprobe
          rwa [actWait_onBaseline hop hact]
        · cases hprobe
      | _ => cases hprobe
    | some stage =>
      rw [probeProtocol_next_stage hstage] at hprobe
      obtain ⟨next, hmoves, rfl⟩ := Option.map_eq_some_iff.mp hprobe
      have htimed := hinv.stage stage hstage
      cases stage with
      | spawned =>
        cases op with
        | instantNow =>
          cases hmoves
          obtain ⟨hx, rfl⟩ := hact
          refine hinv.under hstage ?_ hx rfl rfl ⟨le_rfl, fun hv => absurd rfl hv⟩
            (fun k hk => Or.inl hk) rfl
          intro t ht
          simp only [ProbePhase.begun, hstage, reduceCtorEq] at ht
        | _ => cases hmoves
      | waiting started observed armed handedOff =>
        cases op with
        | instantNow =>
          cases hmoves
          obtain ⟨hx, rfl⟩ := hact
          refine hinv.under hstage ?_ hx rfl rfl ?_ (fun k hk => Or.inl hk) rfl
          · intro t ht
            have hbegun : ψ.begun = some started := by rw [ProbePhase.begun, hstage]
            exact hbegun.symm.trans ht
          · exact fun hv => (htimed.2 hv).trans hx
        | wait op =>
          obtain ⟨stage', hwaits, rfl⟩ := Option.map_eq_some_iff.mp hmoves
          exact hinv.waits hstage hwaits hact
        | _ => cases hmoves
      | finished started observed waitFinished =>
        cases op with
        | receive =>
          cases hmoves
          obtain ⟨rfl, rfl⟩ := hact
          have hrecords : ψ.records = [] := by
            have hlength : ψ.records.length + 1 = 1 := by
              simpa [ProbePhase.trial, hstage] using htrial
            exact List.length_eq_zero_iff.mp (by omega)
          have hbegun : ∀ t, ψ.begun = some t → (ψ.moved (.inr ⟨started, waitFinished, observed,
              (s.channel s.trials).join⟩)).begun = some t := by
            intro t ht
            simpa [ProbePhase.begun, ProbePhase.moved, hstage, hrecords] using ht
          constructor
          · intro ho
            cases ho
          · refine fun _ => ⟨htrials, hdelay, ?_⟩
            simp [ProbePhase.trial, ProbePhase.moved, hrecords]
          · intro _ hs
            cases hs
          · intro record hrecord
            rw [ProbePhase.moved, hrecords, List.nil_append, List.mem_singleton] at hrecord
            rw [hrecord]
            exact htimed
          · exact fun k hk => (hinv.handoff k hk).mono le_rfl hbegun
          · exact fun k hk => (hinv.target k hk).mono le_rfl hbegun
          · exact fun k => (hinv.helper k).mono le_rfl hbegun
        | _ => cases hmoves

/-- A helper moves on, the clock too perhaps, and the waiter sees nothing of it. -/
theorem DelayInv.pass (hinv : DelayInv delay φ h s) {trial : ℕ} {p : DelayPhase}
    (hclock : s.clock ≤ s'.clock) (htrials : s'.trials = s.trials) (hdelay : s'.delay = s.delay)
    (hhandoff : s'.handoff = s.handoff)
    (htarget : ∀ k, s'.target k ≠ 0 → s.target k ≠ 0 ∨ Elapsed delay φ.1 s'.clock)
    (hp : p.Timed delay φ.1 s'.clock) :
    DelayInv delay φ (Function.update h trial p) s' where
  fresh ho := by
    rw [htrials]
    exact hinv.fresh ho
  single ho := by
    rw [htrials, hdelay]
    exact hinv.single ho
  stage stage hs := (hinv.stage stage hs).mono hclock
  records := hinv.records
  handoff k hk := by
    rw [hhandoff] at hk
    exact (hinv.handoff k hk).mono hclock fun _ ht => ht
  target k hk := by
    rcases htarget k hk with hk | hk
    · exact (hinv.target k hk).mono hclock fun _ ht => ht
    · exact hk
  helper k := by
    by_cases hk : k = trial
    · rw [hk, Function.update_self]
      exact hp
    · rw [Function.update_of_ne hk]
      exact (hinv.helper k).mono hclock fun _ ht => ht

/-- The calls of a helper. -/
theorem DelayInv.helps (hinv : DelayInv delay φ h s) {trial : ℕ} {op : TrialOp} {x : TrialAns op}
    {p : DelayPhase} (hnext : delayProtocol.next (h trial) op x = some p)
    (hact : TrialWorld.actHelper trial op s x s') :
    DelayInv delay φ (Function.update h trial p) s' := by
  have htimed := hinv.helper trial
  have hsame : s' = s → p.Timed delay φ.1 s.clock →
      DelayInv delay φ (Function.update h trial p) s' := by
    rintro rfl hp
    exact hinv.pass le_rfl rfl rfl rfl (fun _ hk => Or.inl hk) hp
  cases op with
  | begin =>
    cases hphase : h trial with
    | idle =>
      obtain ⟨hpos, hle, rfl, rfl⟩ := hact
      rw [hphase] at hnext
      cases hnext
      apply hsame rfl
      -- A helper begins in the one trial that there is.
      cases ho : φ.2 with
      | false =>
        have hnone := (hinv.fresh ho).1
        omega
      | true =>
        obtain ⟨hone, hdelay, _⟩ := hinv.single ho
        have htrial : trial = 1 := by omega
        rw [htrial]
        exact hdelay
    | _ =>
      rw [hphase] at hnext
      cases hnext
  | loadHandoff =>
    obtain ⟨rfl, rfl⟩ := hact
    cases hphase : h trial with
    | polling delay' =>
      rw [hphase] at hnext htimed
      cases hnext
      apply hsame rfl
      split
      · next hhanded => exact ⟨htimed, hinv.handoff trial hhanded⟩
      · exact htimed
    | _ =>
      rw [hphase] at hnext
      cases hnext
  | now =>
    obtain ⟨hx, rfl⟩ := hact
    have hmoves : p.Timed delay φ.1 x →
        DelayInv delay φ (Function.update h trial p) { s with clock := x } :=
      fun hp => hinv.pass hx rfl rfl rfl (fun _ hk => Or.inl hk) hp
    apply hmoves
    cases hphase : h trial with
    | polling delay' =>
      rw [hphase] at hnext htimed
      cases hnext
      exact htimed
    | handed delay' =>
      rw [hphase] at hnext htimed
      cases hnext
      exact ⟨htimed.1, le_rfl, htimed.2.mono hx fun _ ht => ht⟩
    | delaying delay' since =>
      rw [hphase] at hnext htimed
      cases hnext
      obtain ⟨rfl, hsince, t, ht, hle⟩ := htimed
      split
      · exact ⟨rfl, hsince.trans hx, t, ht, hle⟩
      · next hpassed => exact ⟨t, ht, by omega⟩
    | due =>
      rw [hphase] at hnext htimed
      cases hnext
      exact Elapsed.mono htimed hx fun _ ht => ht
    | idle =>
      rw [hphase] at hnext
      cases hnext
  | spin =>
    obtain rfl : s' = s := hact
    apply hsame rfl
    cases hphase : h trial with
    | polling delay' =>
      rw [hphase] at hnext htimed
      cases hnext
      exact htimed
    | delaying delay' since =>
      rw [hphase] at hnext htimed
      cases hnext
      exact htimed
    | _ =>
      rw [hphase] at hnext
      cases hnext
  | storeTarget =>
    have hs' : s' = { s.record (.stored trial) with
        target := Function.update s.target trial 1 } := hact
    subst hs'
    cases hphase : h trial with
    | due =>
      rw [hphase] at hnext htimed
      cases hnext
      exact hinv.pass le_rfl rfl rfl rfl (fun _ _ => Or.inr htimed) htimed
    | _ =>
      rw [hphase] at hnext
      cases hnext
  | send published =>
    have hs' : s' = { s with channel := Function.update s.channel trial (some published) } := hact
    subst hs'
    refine hinv.pass le_rfl rfl rfl rfl (fun _ hk => Or.inl hk) ?_
    cases hphase : h trial with
    | polling delay' =>
      rw [hphase] at hnext htimed
      cases hnext
      exact htimed
    | due =>
      rw [hphase] at hnext htimed
      cases hnext
      exact htimed
    | _ =>
      rw [hphase] at hnext
      cases hnext
  | waiter op => exact hact.elim

end DelayInv

/-- A trial is verified only if the delay is below the threshold. -/
theorem Winnable.delay_lt {config : HardwareConfig} {baselineWait : ℕ}
    (h : Winnable config baselineWait) : producerDelay baselineWait < wakeThreshold baselineWait := by
  obtain ⟨c, s, evidence, hr, hret, hverified⟩ := h
  have hstart : DelayInv (producerDelay baselineWait) (soloPhases none)
      (fun k => soloPhases (some k)) .initial := by
    constructor
    · exact fun _ => ⟨rfl, rfl⟩
    · exact fun ho => nomatch ho
    · exact fun _ hs => nomatch hs
    · exact fun _ hrecord => nomatch hrecord
    · exact fun k hk => nomatch hk
    · exact fun k hk => absurd rfl hk
    · exact fun _ => trivial
  have hact : ∀ (r : Option ℕ) (φ : (r : Option ℕ) → SoloPhases r) (op : TrialOp)
      (x : TrialAns op) (φ' : SoloPhases r) (s s' : TrialWorld),
      DelayInv (producerDelay baselineWait) (φ none) (fun k => φ (some k)) s →
      (soloProtocols (producerDelay baselineWait) r).next (φ r) op x = some φ' →
      trialParties.act r op s x s' →
      DelayInv (producerDelay baselineWait) (Function.update φ r φ' none)
        (fun k => Function.update φ r φ' (some k)) s' := by
    intro r φ op x φ' s s' hinv hnext hact
    cases r with
    | none =>
      cases op with
      | waiter op =>
        simp only [Function.update_self]
        exact hinv.waiter hnext hact
      | _ => exact nomatch hnext
    | some trial =>
      have hupdate : (fun k => Function.update φ (some trial) φ' (some k)) =
          Function.update (fun k => φ (some k)) trial φ' := by
        funext k
        by_cases hk : k = trial
        · subst hk
          simp only [Function.update_self]
        · rw [Function.update_of_ne hk, Function.update_of_ne (by simpa using hk)]
      rw [hupdate]
      exact hinv.helps hnext hact
  obtain ⟨φ, hinv, hends⟩ := PoolReach.phases
    (J := fun φ s => DelayInv (producerDelay baselineWait) (φ none) (fun k => φ (some k)) s)
    (soloTrial_follows config baselineWait) hstart hact (fun _ _ _ _ henv => henv.elim) hr
  obtain ⟨record, hrecord, rfl⟩ := (hends none).2 evidence hret
  have hverdict : (record.publishedAt.any fun published => published ≤ record.waitFinished) = true ∧
      record.observed ≠ 0 ∧
      record.waitFinished - record.started < wakeThreshold baselineWait := by
    simpa [TrialRecord.evidence, classifyPreflightTrial, and_assoc] using hverified
  have hdelayed := hinv.records record hrecord hverdict.2.1
  omega

/-- The helper stores as soon as its delay has passed. -/
theorem helper_stores {s : TrialWorld} (hclock : s.clock = 0) (htrials : s.trials = 1)
    (hhandoff : s.handoff 1 = true) : Reach (trialParties.machine (some 1)) (preflightHelper, s)
      (.ret (), { s.record (.stored 1) with
        clock := s.delay 1
        target := Function.update s.target 1 1
        channel := Function.update s.channel 1 (some (some (s.delay 1))) }) := by
  have hdelayed : ∀ delay, ¬ (delay - 0 : ℕ) < delay := fun delay => by omega
  refine .head (.call (x := s.delay 1) ⟨Nat.one_pos, htrials.ge, rfl, rfl⟩) ?_
  refine .head (.call (x := (0 : ℕ)) ⟨hclock.le, rfl⟩) ?_
  refine .head .loop ?_
  refine .head (.call (x := true) ⟨hhandoff.symm, rfl⟩) ?_
  refine .head (.call (x := (0 : ℕ)) ⟨le_rfl, rfl⟩) ?_
  refine .head .loop ?_
  refine .head (.call (x := s.delay 1) ⟨Nat.zero_le _, rfl⟩) ?_
  simp only [Prog.ret_bind, if_neg (hdelayed _)]
  refine .head (.call (x := ()) rfl) ?_
  refine .head (.call (x := s.delay 1) ⟨le_rfl, rfl⟩) ?_
  exact .head (.call (x := ()) rfl) .refl

/-- The end of a trial that began at zero, once its wait is over. -/
def soloEnd (baselineWait : ℕ) : TrialProg PreflightTrialEvidence :=
  Prog.handle (fun op => Prog.perform (TrialOp.waiter op)) do
    let observed ← waiting (preflightTarget.load .acquire)
    let waitFinished ← preflightNow
    let publishedAt ← Prog.perform PreflightOp.receive
    return classifyPreflightTrial publishedAt waitFinished observed (waitFinished - 0)
      (wakeThreshold baselineWait)

/-- A waiter whose target is stored returns. -/
theorem waiter_returns (baselineWait : ℕ) {t : TrialWorld} (htrials : t.trials = 1) (htarget : t.target 1 = 1)
    (hchannel : t.channel 1 = some (some t.clock)) : ∃ t',
      Reach (trialParties.machine none) (soloEnd baselineWait, t) (.ret (classifyPreflightTrial
        (some t.clock) t.clock 1 (t.clock - 0) (wakeThreshold baselineWait)), t') := by
  have hread : (1 : ℕ) = t.read preflightTarget.address := by
    rw [TrialWorld.read, if_pos rfl, htrials, htarget]
  have hreceived : some t.clock = (t.channel t.trials).join := by
    rw [htrials, hchannel]
    rfl
  refine ⟨?t', ?returns⟩
  case returns =>
    refine .head (.call (x := (1 : ℕ)) ⟨hread, rfl⟩) ?_
    refine .head (.call (x := t.clock) ⟨le_rfl, rfl⟩) ?_
    refine .head (.call (x := some t.clock) ⟨hreceived, rfl⟩) ?_
    exact .refl

/-- The waiter hands off at once, and returns with the store. -/
theorem waiter_hands_off (config : HardwareConfig) (baselineWait : ℕ) : ∃ q s,
    Reach (trialParties.machine none) (soloTrial config baselineWait none, .initial) (q, s) ∧
      (s.clock = 0 ∧ s.trials = 1 ∧ s.delay 1 = producerDelay baselineWait ∧
        s.handoff 1 = true) ∧
      ∀ t, t.trials = 1 → t.target 1 = 1 → t.channel 1 = some (some t.clock) → ∃ t',
        Reach (trialParties.machine none) (q, t) (.ret (classifyPreflightTrial (some t.clock)
          t.clock 1 (t.clock - 0) (wakeThreshold baselineWait)), t') := by
  cases config with
  | amd config =>
    refine ⟨?q, ?s, ?hands, ?state, ?returns⟩
    case hands =>
      refine .head (.call (x := ()) rfl) ?_
      refine .head (.call (x := (0 : ℕ)) ⟨le_rfl, rfl⟩) ?_
      refine .head (.call (x := (0 : ℕ)) ⟨rfl, rfl⟩) ?_
      refine .head (.call (x := ()) rfl) ?_
      refine .head (.call (x := (0 : ℕ)) ⟨rfl, rfl⟩) ?_
      refine .head (.call (x := ()) rfl) ?_
      refine .head (.call (x := (0 : ℕ)) ⟨rfl, rfl⟩) ?_
      exact .refl
    case state => exact ⟨rfl, rfl, rfl, rfl⟩
    case returns =>
      intro t htrials htarget hchannel
      obtain ⟨t', hreturns⟩ := waiter_returns baselineWait htrials htarget hchannel
      refine ⟨t', .head (.call (x := ()) rfl) ?_⟩
      exact hreturns
  | intel config =>
    refine ⟨?q', ?s', ?hands', ?state', ?returns'⟩
    case hands' =>
      refine .head (.call (x := ()) rfl) ?_
      refine .head (.call (x := (0 : ℕ)) ⟨le_rfl, rfl⟩) ?_
      refine .head (.call (x := (0 : ℕ)) ⟨rfl, rfl⟩) ?_
      refine .head (.call (x := ()) rfl) ?_
      refine .head (.call (x := (0 : ℕ)) ⟨rfl, rfl⟩) ?_
      refine .head (.call (x := ()) rfl) ?_
      refine .head (.call (x := (0 : ℕ)) ⟨rfl, rfl⟩) ?_
      refine .head (.call (x := (0 : ℕ)) rfl) ?_
      exact .refl
    case state' => exact ⟨rfl, rfl, rfl, rfl⟩
    case returns' =>
      intro t htrials htarget hchannel
      obtain ⟨t', hreturns⟩ := waiter_returns baselineWait htrials htarget hchannel
      refine ⟨t', .head (.call (x := ()) rfl) ?_⟩
      exact hreturns

/-- Below the threshold the delay leaves room for a helper that is as quick as it may be. -/
theorem winnable_of_delay_lt (config : HardwareConfig) {baselineWait : ℕ}
    (h : producerDelay baselineWait < wakeThreshold baselineWait) :
    Winnable config baselineWait := by
  obtain ⟨q, s, hhands, ⟨hclock, htrials, hdelay, hhandoff⟩, hreturns⟩ :=
    waiter_hands_off config baselineWait
  have hstores := helper_stores hclock htrials hhandoff
  have hsent : Function.update s.channel 1 (some (some (s.delay 1))) 1 = some (some (s.delay 1)) := by
    rw [Function.update_self]
  obtain ⟨t, hreturned⟩ := hreturns { s.record (.stored 1) with
      clock := s.delay 1
      target := Function.update s.target 1 1
      channel := Function.update s.channel 1 (some (some (s.delay 1))) } htrials
    (Function.update_self 1 1 s.target) hsent
  have hfirst := PoolReach.party (c := soloTrial config baselineWait) hhands
  have hsecond := PoolReach.party
    (c := Function.update (soloTrial config baselineWait) none q) (r := some 1) hstores
  have hthird := PoolReach.party (c := Function.update (Function.update
    (soloTrial config baselineWait) none q) (some 1) (.ret ())) (r := none) hreturned
  refine ⟨_, t, _, (hfirst.trans hsecond).trans hthird, Function.update_self .., ?_⟩
  rw [hdelay]
  simpa [classifyPreflightTrial] using h

theorem producerDelay_lt_wakeThreshold_iff {b : ℕ} (hmin : preflightMinBlock ≤ b)
    (hmax : b ≤ durationMax) : producerDelay b < wakeThreshold b ↔ 1335 ≤ b := by
  unfold preflightMinBlock at hmin
  unfold durationMax at hmax
  unfold producerDelay wakeThreshold durationMax
  omega

/-- For every baseline that is admitted, a trial can be won if and only if the delay is below the
threshold, which it is from 1335 nanoseconds on. -/
theorem probe_winnable_iff (config : HardwareConfig) {baselineWait : ℕ}
    (hmin : preflightMinBlock ≤ baselineWait) (hmax : baselineWait ≤ durationMax) :
    (Winnable config baselineWait ↔ 1335 ≤ baselineWait) ∧
      (producerDelay baselineWait < wakeThreshold baselineWait ↔ 1335 ≤ baselineWait) := by
  have hdelay := producerDelay_lt_wakeThreshold_iff hmin hmax
  refine ⟨⟨fun hwin => hdelay.mp hwin.delay_lt, fun h => ?_⟩, hdelay⟩
  exact winnable_of_delay_lt config (hdelay.mpr h)

theorem probe_winnable_iff_sample : Winnable (.amd (AmdConfig.new 400)) 1000000 :=
  (probe_winnable_iff (.amd (AmdConfig.new 400)) (by decide) (by decide)).1.mpr (by decide)

/-- A wait of one microsecond is admitted, and every trial fails: the delay alone is longer than
three quarters of it. -/
theorem short_probe_lost : preflightMinBlock ≤ 1000 ∧ producerDelay 1000 = 1000 ∧
    wakeThreshold 1000 = 750 ∧ ∀ config, ¬ Winnable config 1000 := by
  refine ⟨by decide, by decide, by decide, fun config hwin => ?_⟩
  exact absurd hwin.delay_lt (by decide)

end Snoozer
