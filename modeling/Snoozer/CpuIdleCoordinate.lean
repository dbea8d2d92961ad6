import Snoozer.CpuIdleRecover
import Snoozer.CpuIdleCalls

/-! `coordinate_run` keeps the invariant of the host: it journals an operation only when
no other is unfinished, enters the supervisor once, and records one outcome. -/
namespace Snoozer.Benchctl
open Interactive Fallible

variable {codec : Codec} {host : Host} {root : PathBuf} {base : Sysfs} {faults : Bool}
  {α : Type} {id : String} {j : Journal} {s₀ : HostState}

/-- Calls that leave the tree and the journals as they are. -/
def HostOp.still : HostOp → Bool
  | .write _ _ => false
  | .writeJournal _ _ => false
  | .coordinate _ => false
  | _ => true

theorem HostOp.still_of_quiet (op : HostOp) (h : op.quiet = true) : op.still = true := by
  cases op <;> first | rfl | exact nomatch h

/-- A call that leaves the host alone does so. -/
theorem Host.act_still {op : HostOp} (h : op.still = true) {s s' : HostState} {x : HostAns op}
    (hact : host.act faults op s x s') : s' = s := by
  cases op with
  | write path contents => exact nomatch h
  | writeJournal id j => exact nomatch h
  | coordinate request => exact nomatch h
  | invokingActor => exact hact
  | nowMillis => exact hact
  | newOperationId => exact hact
  | readFile path => exact hact
  | atomicWrite path bytes => exact hact
  | setPermissions path mode => exact hact
  | currentExe => exact hact
  | verifyCheckout receipt actor => exact hact
  | clientWatch pid => exact hact
  | pauseAfterExecutableSnapshot => exact hact
  | _ => exact hact.2

theorem triple_still {I P : HostState → Prop} {p : Bench α}
    (hp : Within (HostOp.still · = true) p) :
    Triple (host.machine faults false) I P p (fun _ => P) (fun _ => P) := by
  refine (host.closed faults).triple_within (fun op s x s' hop hI hP hact => ?_) hp
  rw [Host.act_still hop hact]
  exact ⟨hI, hP⟩

/-- An accepted request has a valid operation id, and accepting it changes nothing. -/
theorem triple_acceptRequest {I P : HostState → Prop} (request : RunRequest) :
    Triple (host.machine faults false) I P (acceptRequest codec request)
      (fun accepted s => validOperationId accepted.operationId = true ∧ P s) (fun _ => P) := by
  have hM := host.closed faults
  refine hM.triple_bind ((triple_enterStateDirectory false).conseq (fun _ _ h => h)
    (fun _ _ _ h => h) fun _ _ _ h => h.1) fun _ => ?_
  refine triple_inert (fun _ _ _ h => h) fun x => hM.triple_bind (triple_still (within_ofExcept x))
    fun actor => ?_
  refine hM.triple_bind (triple_still (within_loadReceipt HostOp.still_of_quiet _)) fun receipt => ?_
  refine triple_inert (fun _ _ _ h => h) fun x => hM.triple_bind (triple_still (within_ofExcept x))
    fun _ => ?_
  refine hM.triple_bind (triple_still (within_fileDigest HostOp.still_of_quiet _ _)) fun _ => ?_
  refine hM.triple_bind (A := fun _ => P) ?_ fun operationId => ?_
  · cases request.operationId with
    | some operationId => exact hM.triple_pure fun _ _ h => h
    | none =>
      refine hM.triple_ask fun s x s' hI hP h => ?_
      cases (h : s' = s)
      exact ⟨hI, hP⟩
  refine hM.triple_bind (A := fun _ s => validOperationId operationId = true ∧ P s) ?_
    fun _ => hM.triple_pure fun _ _ h => h
  exact triple_ite (fun hid => hM.triple_pure fun _ _ h => ⟨hid, h⟩)
    fun _ => hM.triple_throw fun _ _ h => h

/-- Operations that pass the check are all restored. -/
theorem triple_requireFinished {I : HostState → Prop} (hI₀ : HostInv codec host root base s₀)
    (ids : List String) :
    Triple (host.machine faults false) I (· = s₀) (requireFinished codec ids)
      (fun _ s => (∀ id ∈ ids, ∀ j, s₀.journals id = some j → j.stage = .restored) ∧ s = s₀)
      (fun _ s => s = s₀) := by
  have hM := host.closed faults
  induction ids with
  | nil => exact hM.triple_pure fun _ _ hs => ⟨fun _ h => (List.not_mem_nil h).elim, hs⟩
  | cons id rest ih =>
    refine hM.triple_bind ((triple_loadJournal id (hI₀.valid id)).conseq (fun _ _ h => h) (fun _ _ _ h => h)
      fun _ _ _ h => h.1) fun j => triple_of_pure fun hj => ?_
    refine triple_ite (fun _ => hM.triple_throw fun _ _ h => h) fun hstage => ?_
    refine ih.post fun _ s _ hs => ⟨fun id' hid' j' hj' => ?_, hs.2⟩
    rcases List.mem_cons.mp hid' with rfl | hid'
    · rw [hj, Option.some.injEq] at hj'
      exact hj' ▸ not_not.mp hstage
    · exact hs.1 id' hid' j' hj'

/-- Past the check, every journal is finished. -/
theorem triple_requireNoUnfinishedJournal {I : HostState → Prop}
    (hI₀ : HostInv codec host root base s₀) :
    Triple (host.machine faults false) I (· = s₀) (requireNoUnfinishedJournal codec)
      (fun _ s => (∀ id j, s₀.journals id = some j → j.stage = .restored) ∧ s = s₀)
      (fun _ s => s = s₀) := by
  have hM := host.closed faults
  refine hM.triple_bind ((triple_selectJournals_none hI₀ false).conseq (fun _ _ h => h)
    (fun _ _ _ h => h) fun _ _ _ h => h.1) fun sel => triple_of_pure fun hsel => ?_
  refine (triple_requireFinished hI₀ sel).post fun _ s _ hs => ⟨fun id j hj => ?_, hs.2⟩
  refine hs.1 id ((hsel.2 id).mpr ⟨?_, fun h => nomatch h⟩) j hj
  exact Option.isSome_iff_exists.mpr ⟨j, hj⟩

/-- The first part of `finishRun`: the outcome and the drain are recorded. -/
def recordDrain (codec : Codec) (coordinator : Actor) (journal : Journal) (outcome : Outcome) :
    Bench Journal := do
  let journal := { journal with outcome := some (terminalOutcome outcome) }
  let journal ← journal.transition .workloadFinished coordinator
  let journal ← journal.transition .draining (← actor)
  storeJournal codec journal.operationId journal
  return journal

/-- The second: the host is put back and the outcome reported. -/
def restoreDrained (codec : Codec) (sysfsRoot : PathBuf) (outcome : Outcome) (journal : Journal) :
    Bench Unit := do
  restore codec sysfsRoot journal.operationId journal
  cleanupRuntime journal.operationId
  ofExcept (outcomeResult (terminalOutcome outcome))

theorem finishRun_eq (request : RunRequest) (coordinator : Actor) (outcome : Outcome) :
    finishRun codec request coordinator j outcome = recordDrain codec coordinator j outcome >>=
      restoreDrained codec request.sysfsRoot outcome := by
  simp only [recordDrain, Fallible.bind_assoc]
  rfl

/-- `d` continues the journal `j` with the end of its workload. -/
structure Journal.DrainedFrom (j : Journal) (outcome : Outcome) (d : Journal) : Prop where
  outcome : d.outcome = some (terminalOutcome outcome)
  stages : d.transitions.map Transition.stage =
    j.transitions.map Transition.stage ++ [.workloadFinished, .draining]

/-- The outcome is stored in the journal, which is then draining. -/
theorem triple_recordDrain (coordinator : Actor) (outcome : Outcome) :
    Triple (host.machine faults false) (HostInv codec host root base)
      (Owns codec host root base id j) (recordDrain codec coordinator j outcome)
      (fun d s => j.DrainedFrom outcome d ∧ Owns codec host root base id d s ∧
        s.journals id = some d) (fun _ _ => faults = true) := by
  have hM := host.closed faults
  refine triple_of_state fun s₀ _ hown₀ => Triple.pre ?_ fun s _ hs => hs ▸ hown₀
  have hid : j.operationId = id := hown₀.sound.sameId
  refine triple_transition _ _ fun millis => triple_actorTransition _ fun a millis' => ?_
  obtain ⟨j', hj'⟩ : ∃ j', j' = (Journal.push { j with outcome := some (terminalOutcome outcome) }
    .workloadFinished coordinator millis).push .draining a millis' := ⟨_, rfl⟩
  have hid' : j'.operationId = id := by rw [hj']; exact hid
  have hown' : ∀ s, Owns codec host root base id j s → Owns codec host root base id j' s :=
    fun s h => hj' ▸ ((h.setOutcome _).push ..).push ..
  have hdrained : j.DrainedFrom outcome j' := by
    rw [hj']
    exact ⟨rfl, by simp [Journal.push]⟩
  rw [← hj', hid']
  refine hM.triple_bind (triple_storeJournal
    (Q := fun s => Owns codec host root base id j' s ∧ s.journals id = some j')
    (hown' s₀ hown₀).sound.valid ?_) fun _ => hM.triple_pure fun _ _ hs => ⟨hdrained, hs⟩
  intro s hI hown
  obtain ⟨hI', hown''⟩ := (hown' s hown).progress hI (by simp [hj'])
  exact ⟨hI', hown'', HostState.store_self ..⟩

/-- Without I/O errors the host is put back, whatever the outcome. -/
theorem triple_restoreDrained (outcome : Outcome) :
    Triple (host.machine faults false) (HostInv codec host root base)
      (Owns codec host root base id j) (restoreDrained codec root outcome j)
      (fun _ s => outcomeResult (terminalOutcome outcome) = .ok () ∧
        RestoredFrom base id j s)
      (fun e s => faults = true ∨ outcomeResult (terminalOutcome outcome) = .error e ∧
        RestoredFrom base id j s) := by
  have hM := host.closed faults
  refine triple_of_state fun s₀ _ hown₀ => Triple.pre ?_ fun s _ hs => hs ▸ hown₀
  unfold restoreDrained
  rw [hown₀.sound.sameId]
  refine hM.triple_bind (triple_restore_recorded.conseq (fun _ _ h => h) (fun _ _ _ h => h)
    fun _ _ _ h => Or.inl h) fun _ => ?_
  refine hM.triple_bind ((triple_cleanupRuntime id).conseq (fun _ _ h => h) (fun _ _ _ h => h)
    fun _ _ _ h => Or.inl h.2) fun _ => ?_
  exact triple_ofExcept (fun _ hr _ _ hs => ⟨hr, hs⟩) fun _ hr _ _ hs => Or.inr ⟨hr, hs⟩

theorem triple_finishRun (request : RunRequest) (hroot : request.sysfsRoot = root)
    (coordinator : Actor) (outcome : Outcome) :
    Triple (host.machine faults false) (HostInv codec host root base)
      (Owns codec host root base id j) (finishRun codec request coordinator j outcome)
      (fun _ _ => True) (fun _ _ => True) := by
  have hM := host.closed faults
  rw [finishRun_eq, hroot]
  refine hM.triple_bind ((triple_recordDrain coordinator outcome).conseq (fun _ _ h => h)
    (fun _ _ _ h => h.2.1) fun _ _ _ _ => trivial) fun d => ?_
  exact (triple_restoreDrained outcome).conseq (fun _ _ h => h) (fun _ _ _ _ => trivial)
    fun _ _ _ _ => trivial

/-- A stage before the last is progress of the owned operation. -/
theorem triple_record (stage : Stage) (hstage : stage ≠ .restored) (a : Actor) (millis : ℕ) :
    Triple (host.machine faults false) (HostInv codec host root base)
      (Owns codec host root base id j) (storeJournal codec id (j.push stage a millis))
      (fun _ => Owns codec host root base id (j.push stage a millis)) (fun _ _ => True) := by
  refine triple_of_state fun s₀ _ hown₀ => Triple.pre ?_ fun s _ hs => hs ▸ hown₀
  refine (triple_storeJournal (Journal.validate_push hown₀.sound.valid ..) ?_).conseq
    (fun _ _ h => h) (fun _ _ _ h => h) fun _ _ _ _ => trivial
  intro s hI hown
  exact (hown.push stage a millis).progress hI (by simpa using hstage)

/-- A supervised run ends with a host whose invariant holds. -/
theorem triple_superviseRun (request : RunRequest) (hroot : request.sysfsRoot = root)
    (accepted : Acceptance) (clientWatch : Bool) (coordinator : Actor) :
    Triple (host.machine faults false) (HostInv codec host root base)
      (Owns codec host root base accepted.operationId j)
      (superviseRun codec request accepted clientWatch coordinator j)
      (fun _ _ => True) (fun _ _ => True) := by
  have hM := host.closed faults
  obtain ⟨id, hid⟩ : ∃ id, id = accepted.operationId := ⟨_, rfl⟩
  unfold superviseRun
  rw [← hid]
  refine triple_transition _ _ fun millis =>
    hM.triple_bind (triple_record _ (by decide) _ millis) fun _ => ?_
  refine triple_transition _ _ fun millis' =>
    hM.triple_bind (triple_record _ (by decide) _ millis') fun _ => ?_
  obtain ⟨j', hj'⟩ : ∃ j', j' = (j.push .applied coordinator millis).push .workloadStarted
    coordinator millis' := ⟨_, rfl⟩
  have hstage' : j'.stage ≠ .restored := by simp [hj']
  rw [← hj']
  refine hM.triple_bind (A := fun _ => Owns codec host root base id j')
    (hM.triple_ask ?_) fun result => ?_
  · rintro s x s' hI hown rfl
    exact ⟨hI.enter id, hown.enter id⟩
  cases result with
  | ok outcome =>
    exact triple_finishRun request hroot coordinator outcome
  | error error =>
    refine hM.triple_bind ((triple_reconcileRuntimeOutcome hstage').conseq (fun _ _ h => h)
      (fun _ _ _ h => h) fun _ _ _ _ => trivial) fun j'' => triple_of_pure fun hstage'' => ?_
    refine triple_of_state fun s₁ _ hown₁ => Triple.pre ?_ fun s _ hs => hs ▸ hown₁
    refine triple_actorTransition _ fun a millis'' => hM.triple_bind
      ((triple_storeJournal (Q := fun _ => True) (Journal.validate_push hown₁.sound.valid ..)
        ?_).conseq (fun _ _ h => h) (fun _ _ _ h => h) fun _ _ _ _ => trivial)
      fun _ => hM.triple_throw fun _ _ _ => trivial
    intro s hI hown
    exact ⟨((hown.push ..).progress hI (by simp)).1, trivial⟩

/-- The record of an operation that begins. -/
structure Journal.Fresh (codec : Codec) (id boot : String) (j : Journal) : Prop where
  version : j.version = journalVersion
  operationId : j.operationId = id
  requestHash : j.requestHash = j.request.digest codec
  bootId : j.bootId = boot
  outcome : j.outcome = none
  stages : j.transitions.map Transition.stage = [.prepared]

theorem triple_newJournal {I : HostState → Prop} (recorded : Request) (coordinator : Actor)
    (id boot : String) :
    Triple (host.machine faults false) I (· = s₀) (Journal.new codec id recorded coordinator boot)
      (fun j s => j.Fresh codec id boot ∧ s = s₀) (fun _ _ => True) :=
  triple_inert (fun _ _ _ h => h) fun _ => (host.closed faults).triple_pure fun _ _ hs =>
    ⟨⟨rfl, rfl, rfl, rfl, rfl, rfl⟩, hs⟩

/-- With every journal finished the inventory is one of the original host. -/
theorem Journal.Fresh.sound {s : HostState} {es : List IdleEntry} {cpus : List ℕ}
    (h : j.Fresh codec id (trim host.bootId)) (hvalid : validOperationId id = true)
    (hI : HostInv codec host root base s)
    (hdone : ∀ id j, s.journals id = some j → j.stage = .restored)
    (hcpus : cpus.Pairwise (· < ·)) (hyields : Yields (host.look s) (inventory root cpus) es) :
    JournalSound codec host root base id { j with entries := es } := by
  have htransitions : j.transitions ≠ [] := by
    intro hnil
    have hstages := h.stages
    rw [hnil] at hstages
    cases hstages
  exact ⟨h.operationId, hvalid,
    Journal.validate_eq_ok.mpr ⟨h.version, h.requestHash, htransitions⟩, h.bootId, cpus, hcpus,
    inventory_congr hyields fun p => (hI.clean hdone p).symm⟩

theorem Journal.Fresh.unfinished {boot : String} (h : j.Fresh codec id boot) :
    j.stage ≠ .restored := by
  rw [Journal.stage, ← List.getLast?_map, h.stages]
  decide

theorem Journal.Fresh.inventoried {boot : String} (h : j.Fresh codec id boot)
    (es : List IdleEntry) : ({ j with entries := es } : Journal).Fresh codec id boot :=
  ⟨h.version, h.operationId, h.requestHash, h.bootId, h.outcome, h.stages⟩

/-- A run from its acceptance to the stored journal. -/
def prepareRun (codec : Codec) (request : RunRequest) (accepted : Acceptance) :
    Bench (Bool × Actor × Journal) := do
  requireNoUnfinishedJournal codec
  let clientWatch ← ofExcept (← ask (.clientWatch request.clientPid))
  acceptSnapshots codec accepted
  ofExcept (← ask .pauseAfterExecutableSnapshot)
  let coordinator ← actor
  let bootId ← readBootId
  let journal ← Journal.new codec accepted.operationId accepted.recorded coordinator bootId
  let entries ← inventory request.sysfsRoot request.cpus
  let journal := { journal with entries := entries }
  storeJournal codec accepted.operationId journal
  return (clientWatch, coordinator, journal)

/-- A run from its stored journal. -/
def startRun (codec : Codec) (request : RunRequest) (accepted : Acceptance)
    (prepared : Bool × Actor × Journal) : Bench Unit := do
  match ← attempt (apply request.sysfsRoot prepared.2.2.entries) with
  | .ok () => superviseRun codec request accepted prepared.1 prepared.2.1 prepared.2.2
  | .error error =>
    match ← attempt (restore codec request.sysfsRoot accepted.operationId prepared.2.2) with
    | .ok () => throw error
    | .error restoreError =>
      throw (.state (s!"apply failed ({error.display}); " ++
        s!"cleanup also failed ({restoreError.display})"))

theorem executeRun_eq (request : RunRequest) (accepted : Acceptance) :
    executeRun codec request accepted =
      prepareRun codec request accepted >>= startRun codec request accepted := by
  simp only [prepareRun, Fallible.bind_assoc]
  rfl

/-- The journal that a run has stored is one of an operation that has just begun. -/
theorem triple_prepareRun (hI₀ : HostInv codec host root base s₀) (request : RunRequest)
    (hroot : request.sysfsRoot = root) (hcpus : request.cpus.Pairwise (· < ·))
    (accepted : Acceptance) (hvalid : validOperationId accepted.operationId = true) :
    Triple (host.machine faults false) (HostInv codec host root base) (· = s₀)
      (prepareRun codec request accepted)
      (fun prepared s => prepared.2.2.Fresh codec accepted.operationId (trim host.bootId) ∧
        Owns codec host root base accepted.operationId prepared.2.2 s)
      (fun _ _ => True) := by
  have hM := host.closed faults
  have hkeep : ∀ {α : Type} {p : Bench α}, Within (HostOp.still · = true) p →
      Triple (host.machine faults false) (HostInv codec host root base) (· = s₀) p
        (fun _ s => s = s₀) (fun _ _ => True) := fun hp =>
    (triple_still hp).conseq (fun _ _ h => h) (fun _ _ _ h => h) fun _ _ _ _ => trivial
  refine hM.triple_bind ((triple_requireNoUnfinishedJournal hI₀).conseq (fun _ _ h => h)
    (fun _ _ _ h => h) fun _ _ _ _ => trivial) fun _ => triple_of_pure fun hdone => ?_
  refine triple_inert (fun _ _ _ h => h) fun x => hM.triple_bind (hkeep (within_ofExcept x))
    fun clientWatch => ?_
  refine hM.triple_bind (hkeep (within_acceptSnapshots HostOp.still_of_quiet (fun _ _ => rfl)
    accepted)) fun _ => ?_
  refine triple_inert (fun _ _ _ h => h) fun x => hM.triple_bind (hkeep (within_ofExcept x))
    fun _ => ?_
  refine triple_inert (fun _ _ _ h => h.2) fun coordinator => ?_
  refine hM.triple_bind (triple_readBootId.conseq (fun _ _ h => h) (fun _ _ _ h => h)
    fun _ _ _ _ => trivial) fun boot => triple_of_pure fun hboot => ?_
  subst hboot
  refine hM.triple_bind (triple_newJournal _ coordinator _ _) fun j =>
    triple_of_pure fun hfresh => ?_
  refine hM.triple_bind ((triple_looks (looks_inventory _ _)).conseq (fun _ _ h => h)
    (fun _ _ _ h => h) fun _ _ _ _ => trivial) fun es => ?_
  refine triple_of_state fun s hI hs => ?_
  obtain ⟨rfl, hyields⟩ := hs
  rw [hroot] at hyields
  have hsound := hfresh.sound hvalid hI hdone hcpus hyields
  have hfresh' := hfresh.inventoried es
  generalize ({ j with entries := es } : Journal) = j' at hsound hfresh'
  refine hM.triple_bind ((triple_storeJournal
    (Q := Owns codec host root base accepted.operationId j')
    hsound.valid ?_).conseq (fun _ _ h => h) (fun _ _ _ h => h) fun _ _ _ _ => trivial) fun _ =>
    hM.triple_pure fun _ _ hown => ⟨hfresh', hown⟩
  rintro s' hI' rfl
  exact hostInv_create hI' hdone hsound hfresh'.unfinished

/-- So does a run that has found no journal of its operation. -/
theorem triple_executeRun (hI₀ : HostInv codec host root base s₀) (request : RunRequest)
    (hroot : request.sysfsRoot = root) (hcpus : request.cpus.Pairwise (· < ·))
    (accepted : Acceptance) (hvalid : validOperationId accepted.operationId = true) :
    Triple (host.machine faults false) (HostInv codec host root base) (· = s₀)
      (executeRun codec request accepted) (fun _ _ => True) (fun _ _ => True) := by
  have hM := host.closed faults
  rw [executeRun_eq]
  refine hM.triple_bind (triple_prepareRun hI₀ request hroot hcpus accepted hvalid)
    fun prepared => triple_of_pure fun hfresh => ?_
  unfold startRun
  rw [hroot]
  refine hM.triple_bind (hM.triple_attempt (C := fun _ => Owns codec host root base
    accepted.operationId prepared.2.2) triple_apply) fun applied => ?_
  cases applied with
  | ok _ =>
    exact triple_superviseRun request hroot accepted _ _
  | error error =>
    refine hM.triple_bind (hM.triple_attempt (C := fun _ _ => True) (triple_restore.conseq
      (fun _ _ h => h) (fun _ _ _ _ => trivial) fun _ _ _ _ => trivial)) fun restored => ?_
    cases restored <;> exact hM.triple_throw fun _ _ _ => trivial

/-- What a run answers when the operation has the journal `existing`. -/
def replayResult (accepted : Acceptance) (existing : Journal) : Except BenchError Unit :=
  if existing.request ≠ accepted.recorded then .error (.requestConflict accepted.operationId)
  else if existing.stage ≠ .restored then .error (.recoveryRequired accepted.operationId)
  else match existing.outcome with
    | some outcome => outcomeResult outcome
    | none => .error (.state (s!"operation {accepted.operationId} was restored " ++
        "without a recorded workload outcome"))

/-- A replay answers by the stored journal and changes nothing. -/
theorem triple_replayJournal {I : HostState → Prop} {accepted : Acceptance}
    (hj : s₀.journals accepted.operationId = some j) (hsame : j.operationId = accepted.operationId)
    (hvalid : j.validate codec = .ok ()) (hdigest : Function.Injective (Request.digest codec)) :
    Triple (host.machine faults false) I (· = s₀) (replayJournal codec accepted)
      (fun _ s => replayResult accepted j = .ok () ∧ s = s₀)
      (fun e s => (faults = true ∨ replayResult accepted j = .error e) ∧ s = s₀) := by
  have hM := host.closed faults
  have hstored : ∀ d, s₀.journals accepted.operationId = some d → d.validate codec = .ok () :=
    fun d hd => Option.some.inj (hj.symm.trans hd) ▸ hvalid
  refine hM.triple_bind ((triple_loadJournal accepted.operationId hstored).conseq (fun _ _ h => h)
    (fun _ _ _ h => h) ?_) fun existing => triple_of_pure fun hexisting => ?_
  · rintro e s _ ⟨hs, hfaults | hnone⟩
    · exact ⟨Or.inl hfaults, hs⟩
    · rw [hj] at hnone
      exact nomatch hnone
  rw [hj, Option.some.injEq] at hexisting
  subst hexisting
  have hhash := (Journal.validate_eq_ok.mp hvalid).2.1
  have hconflict : j.requestHash ≠ accepted.recorded.digest codec ↔
      j.request ≠ accepted.recorded := by
    rw [hhash]
    exact hdigest.ne_iff
  refine triple_ite (fun hne => ?_) fun heq => ?_
  · refine hM.triple_throw fun s _ hs => ⟨Or.inr ?_, hs⟩
    rw [replayResult, if_pos (hconflict.mp hne)]
  have hrequest : ¬ j.request ≠ accepted.recorded := fun h => heq (hconflict.mpr h)
  refine triple_ite (fun hstage => ?_) fun hstage => ?_
  · have hresult : replayResult accepted j = match j.outcome with
        | some outcome => outcomeResult outcome
        | none => .error (.state (s!"operation {accepted.operationId} was restored " ++
            "without a recorded workload outcome")) := by
      rw [replayResult, if_neg hrequest, if_neg (not_not.mpr hstage)]
    rw [hresult]
    unfold replayOutcome
    rw [hsame]
    cases j.outcome with
    | none => exact hM.triple_throw fun _ _ hs => ⟨Or.inr rfl, hs⟩
    | some outcome =>
      exact triple_ofExcept (fun _ h _ _ hs => ⟨h, hs⟩) fun _ h _ _ hs => ⟨Or.inr h, hs⟩
  · refine hM.triple_throw fun s _ hs => ⟨Or.inr ?_, hs⟩
    rw [replayResult, if_neg hrequest, if_pos hstage]

/-- A journal that is there is replayed and a new operation is run. -/
theorem triple_lookupJournal (hI₀ : HostInv codec host root base s₀)
    (request : RunRequest) (hroot : request.sysfsRoot = root)
    (hcpus : request.cpus.Pairwise (· < ·)) (accepted : Acceptance)
    (hvalid : validOperationId accepted.operationId = true) :
    Triple (host.machine faults false) (HostInv codec host root base) (· = s₀)
      (lookupJournal codec request accepted) (fun _ _ => True) (fun _ _ => True) := by
  have hM := host.closed faults
  -- A run begins only with every journal finished, so nothing hangs on what the lookup answers.
  refine hM.triple_bind (A := fun _ s => s = s₀) (hM.triple_ask ?_)
    fun x => triple_ite (fun _ => ?_) fun _ => ?_
  · rintro s x s' hI rfl ⟨_, rfl⟩
    exact ⟨hI, rfl⟩
  · exact (triple_still (within_replayJournal HostOp.still_of_quiet accepted)).conseq (fun _ _ h => h)
      (fun _ _ _ _ => trivial) fun _ _ _ _ => trivial
  · exact triple_executeRun hI₀ request hroot hcpus accepted hvalid

theorem normalizeCpus_pairwise (cpus : List ℕ) :
    (dedup (sortUnstable cpus)).Pairwise (· < ·) :=
  dedup_pairwise (sortUnstable_pairwise cpus)

/-- Every run of `coordinate_run` keeps the invariant of the host. -/
theorem triple_coordinateRun (request : RunRequest) (hroot : request.sysfsRoot = root) :
    Triple (host.machine faults false) (HostInv codec host root base) (fun _ => True)
      (coordinateRun codec request) (fun _ _ => True) (fun _ _ => True) := by
  have hM := host.closed faults
  refine hM.triple_bind (A := fun cpus _ => cpus.Pairwise (· < ·)) ?_ fun cpus => ?_
  · refine triple_ite (fun _ => hM.triple_throw fun _ _ _ => trivial) fun _ => ?_
    refine triple_ite (fun _ => hM.triple_throw fun _ _ _ => trivial) fun _ => ?_
    exact hM.triple_pure fun _ _ _ => normalizeCpus_pairwise _
  refine triple_of_state fun _ _ hcpus => ?_
  refine hM.triple_bind ((triple_acceptRequest _).conseq (fun _ _ h => h) (fun _ _ _ h => h)
    fun _ _ _ _ => trivial) fun accepted => triple_of_pure fun hvalid => ?_
  exact triple_of_state fun s hI _ =>
    triple_lookupJournal hI { request with cpus := cpus } hroot hcpus accepted hvalid

end Snoozer.Benchctl
