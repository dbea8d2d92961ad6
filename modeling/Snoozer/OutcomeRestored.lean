import Snoozer.CrashRecovery
import Snoozer.InvocationRuns

/-! What `coordinate_run` does with the outcome of a supervised workload: it records it in the
journal, puts the host back and reports it. -/
namespace Snoozer.Benchctl
open Interactive Fallible

variable {codec : Codec} {host : Host} {root : PathBuf} {base : Sysfs} {faults : Bool}
  {α : Type} {id : String} {j : Journal} {s₀ s s' : HostState}
  {I P : HostState → Prop}

/-- The rest of a run that has called the supervisor, by what that answers. -/
abbrev AfterCoordinate (α : Type) := Except BenchError Outcome → Prog HostOp HostAns (Except BenchError α)

/-- The supervisor is called with the start of the workload recorded, and a workload's outcome
is what ends the operation. -/
structure AtSupervisor (codec : Codec) (host : Host) (root : PathBuf) (base : Sysfs)
    (request : CoordinateRequest) (rest : AfterCoordinate Unit) (s : HostState) (j : Journal) :
    Prop where
  inv : HostInv codec host root base s
  owns : Owns codec host root base request.operationId j s
  stages : j.stages = [.prepared, .applied, .workloadStarted]
  rest : ∃ (run : RunRequest) (coordinator : Actor), run.sysfsRoot = root ∧
    ∀ outcome, rest (.ok outcome) = (finishRun codec run coordinator j outcome).run

/-- What holds whenever a run calls the supervisor. -/
def Calling (codec : Codec) (host : Host) (root : PathBuf) (base : Sysfs)
    (request : CoordinateRequest) (rest : AfterCoordinate Unit) (s : HostState) : Prop :=
  ∃ j, AtSupervisor codec host root base request rest s j

/-- The call is not the one into the supervisor. -/
def HostOp.Outside (op : HostOp) : Prop := ∀ request, op ≠ .coordinate request

theorem HostOp.outside_of_quiet (op : HostOp) (hop : op.quiet = true) : op.Outside := by
  rintro request rfl
  cases hop

theorem permits_outside (codec : Codec) (id : String) (request : Request) :
    Permits codec HostOp.Outside id request :=
  ⟨HostOp.outside_of_quiet, fun _ _ _ h => (nomatch h), fun _ _ _ _ h => nomatch h⟩

variable {R : CoordinateRequest → AfterCoordinate α → HostState → Prop}

theorem before_transition {f : Journal → Bench α} (stage : Stage) (a : Actor)
    (hf : ∀ millis, Before (host.machine faults false) HostOp.coordinate I P
      (f (j.push stage a millis)) R) :
    Before (host.machine faults false) HostOp.coordinate I P (j.transition stage a >>= f) R :=
  before_bind (B := fun _ _ => True) (triple_transitioned stage a)
    (within_call (HostOp.outside_of_quiet _ rfl) fun _ => within_pure _)
    fun _ => before_of_pure fun ⟨millis, hj'⟩ => hj' ▸ hf millis

theorem before_coordinate {f : Except BenchError Outcome → Bench α} {request : CoordinateRequest}
    (hnever : ∀ result, Within HostOp.Outside (f result))
    (hR : ∀ s, I s → P s → R request (fun result => (f result).run) s) :
    Before (host.machine faults false) HostOp.coordinate I P (coordinate request >>= f) R :=
  before_ask (host.closed faults) (fun _ _ h => HostOp.coordinate.inj h) hnever hR

/-- Up to the call of the supervisor a supervised run owns the host, and at it the rest restores the
host. -/
theorem before_superviseRun (run : RunRequest) (hroot : run.sysfsRoot = root)
    (accepted : Acceptance) (hstages : j.stages = [.prepared]) (clientWatch : Bool)
    (coordinator : Actor) :
    Before (host.machine faults false) HostOp.coordinate (HostInv codec host root base)
      (Owns codec host root base accepted.operationId j)
      (superviseRun codec run accepted clientWatch coordinator j)
      (Calling codec host root base) := by
  refine before_transition _ _ fun millis => ?_
  refine before_bind (triple_record _ (by decide) _ millis) (permits_outside ..).store fun _ => ?_
  refine before_transition _ _ fun millis' => ?_
  refine before_bind (triple_record _ (by decide) _ millis') (permits_outside ..).store fun _ => ?_
  have hstages' : ((j.push .applied coordinator millis).push .workloadStarted coordinator
      millis').stages = [.prepared, .applied, .workloadStarted] := by
    rw [stages_push, stages_push, hstages]
    rfl
  -- What follows calls no supervisor, so this call is the one that counts.
  apply before_coordinate
  · intro result
    cases result with
    | ok outcome => exact (permits_outside ..).finishRun run coordinator outcome
    | error error =>
      refine (permits_outside ..).reconcileRuntimeOutcome fun j' _ => ?_
      exact within_actorTransition HostOp.outside_of_quiet fun _ _ =>
        (permits_outside ..).store.bind fun _ => within_throw _
  · intro s hI hown
    exact ⟨_, hI, hown, hstages', run, coordinator, hroot, fun _ => rfl⟩

theorem within_prepareRun (run : RunRequest) (accepted : Acceptance) :
    Within HostOp.Outside (prepareRun codec run accepted) := by
  have hquiet := HostOp.outside_of_quiet
  refine (within_requireNoUnfinishedJournal hquiet).bind fun _ =>
    within_call (hquiet _ rfl) fun _ => (within_ofExcept _).bind fun _ => ?_
  refine (within_acceptSnapshots hquiet (fun _ _ _ h => nomatch h) accepted).bind fun _ => ?_
  refine within_call (hquiet _ rfl) fun _ => (within_ofExcept _).bind fun _ => ?_
  refine within_call (hquiet _ rfl) fun _ => (within_readBootId hquiet).bind fun _ => ?_
  refine Within.bind (within_call (hquiet _ rfl) fun _ => within_pure _) fun j => ?_
  refine (within_inventory hquiet _ _).bind fun entries => ?_
  exact (permits_outside ..).store.bind fun _ => within_pure _

/-- So does a run that has found no journal of its operation. -/
theorem before_executeRun (hI₀ : HostInv codec host root base s₀) (run : RunRequest)
    (hroot : run.sysfsRoot = root) (hcpus : run.cpus.Pairwise (· < ·))
    (accepted : Acceptance) (hvalid : validOperationId accepted.operationId = true) :
    Before (host.machine faults false) HostOp.coordinate (HostInv codec host root base) (· = s₀)
      (executeRun codec run accepted) (Calling codec host root base) := by
  have hM := host.closed faults
  rw [executeRun_eq]
  refine before_bind (triple_prepareRun hI₀ run hroot hcpus accepted hvalid)
    (within_prepareRun run accepted) fun prepared => before_of_pure fun hfresh => ?_
  unfold startRun
  have happly : Triple (host.machine faults false) (HostInv codec host root base)
      (Owns codec host root base accepted.operationId prepared.2.2)
      (attempt (apply run.sysfsRoot prepared.2.2.entries))
      (fun _ => Owns codec host root base accepted.operationId prepared.2.2)
      (fun _ _ => True) := by
    rw [hroot]
    exact hM.triple_attempt triple_apply
  refine before_bind happly
    (Permits.apply (j := prepared.2.2) (permits_outside codec "" _) _ _).attempt fun applied => ?_
  cases applied with
  | ok _ =>
    exact before_superviseRun run hroot accepted hfresh.stages _ _
  | error error =>
    apply before_never
    refine ((permits_outside ..).restore _).attempt.bind fun restored => ?_
    cases restored with
    | ok _ => exact within_throw _
    | error _ => exact within_throw _

/-- Whenever a run calls the supervisor, the operation is journalled up to its start. -/
theorem before_coordinateRun (run : RunRequest) (hroot : run.sysfsRoot = root) :
    Before (host.machine faults false) HostOp.coordinate (HostInv codec host root base)
      (fun _ => True) (coordinateRun codec run) (Calling codec host root base) := by
  have hM := host.closed faults
  have hquiet := HostOp.outside_of_quiet
  refine before_bind (A := fun cpus _ => cpus.Pairwise (· < ·)) (B := fun _ _ => True) ?_
    (.ite (within_throw _) (.ite (within_throw _) (within_pure _))) fun cpus => ?_
  · refine triple_ite (fun _ => hM.triple_throw fun _ _ _ => trivial) fun _ => ?_
    refine triple_ite (fun _ => hM.triple_throw fun _ _ _ => trivial) fun _ => ?_
    exact hM.triple_pure fun _ _ _ => normalizeCpus_pairwise _
  refine before_of_state fun _ _ hcpus => ?_
  refine before_bind (triple_acceptRequest _)
    (within_acceptRequest hquiet (fun _ _ h => nomatch h) (fun _ h => nomatch h) _)
    fun accepted => before_of_pure fun hvalid => before_of_state fun s hI _ => ?_
  refine before_bind (A := fun _ s' => s' = s) (B := fun _ _ => True) (hM.triple_ask ?_)
    (within_ask fun _ h => nomatch h) fun _ => before_ite (fun _ => ?_) fun _ => ?_
  · rintro s' x s'' hI' rfl ⟨_, rfl⟩
    exact ⟨hI', rfl⟩
  · exact before_never (within_replayJournal hquiet accepted)
  · exact before_executeRun hI { run with cpus := cpus } hroot hcpus accepted hvalid

/-- The call does not leave the operation `Recoverable`. -/
def HostOp.Conclusive (op : HostOp) : Prop :=
  ∀ id j, op = .writeJournal id j → j.stage ≠ .recoverable

section Conclusive

variable {id : String} {j : Journal}

theorem conclusive_quiet (op : HostOp) (hop : op.quiet = true) : op.Conclusive := by
  rintro id j rfl
  cases hop

theorem conclusive_push (stage : Stage) (hstage : stage ≠ .recoverable) (a : Actor)
    (millis : ℕ) :
    (HostOp.writeJournal id (j.push stage a millis)).Conclusive := by
  rintro id' j' h
  cases h
  rw [Journal.push_stage]
  exact hstage

/-- A restore never leaves the operation `Recoverable`. -/
theorem conclusive_restore (root : PathBuf) :
    Within HostOp.Conclusive (restore codec root id j) := by
  have hconflict : ∀ (j : Journal) (e : IdleEntry) (expected actual : String),
      Within HostOp.Conclusive (restoreConflict codec id j e expected actual) := fun j e _ _ =>
    within_actorTransition conclusive_quiet fun a millis =>
      (within_storeJournal fun _ => conclusive_push .restoreConflict (by simp) a millis).bind fun _ =>
        within_throw _
  have hcheck : ∀ (j : Journal) (es : List IdleEntry),
      Within HostOp.Conclusive (restoreCheck codec id j es) := by
    intro j es
    induction es with
    | nil => exact within_pure _
    | cons e rest ih =>
      exact (within_readBit conclusive_quiet _).bind fun _ => .ite (hconflict ..) ih
  have hbit : ∀ (path : PathBuf) (v : String), Within HostOp.Conclusive (writeBit path v) :=
    fun _ _ => within_call (fun _ _ h => nomatch h) fun _ => (within_ofExcept _).bind fun _ =>
      (within_readBit conclusive_quiet _).bind fun _ => .ite (within_throw _) (within_pure _)
  have hwrite : ∀ (j : Journal) (es : List IdleEntry),
      Within HostOp.Conclusive (restoreWrite codec id j es) := by
    intro j es
    induction es with
    | nil => exact within_pure _
    | cons e rest ih =>
      exact (within_readBit conclusive_quiet _).bind fun _ => .ite (hconflict ..)
        (.ite ((hbit _ _).bind fun _ => ih) ih)
  have hverify : ∀ (j : Journal) (es : List IdleEntry),
      Within HostOp.Conclusive (restoreVerify codec id j es) := by
    intro j es
    induction es with
    | nil => exact within_pure _
    | cons e rest ih =>
      exact (within_readBit conclusive_quiet _).bind fun _ => .ite (hconflict ..) ih
  refine (within_validateInventory conclusive_quiet ..).bind fun _ => (hcheck ..).bind fun _ => ?_
  refine within_actorTransition conclusive_quiet fun a millis => ?_
  refine (within_storeJournal fun _ => conclusive_push _ (by simp) a millis).bind fun _ => ?_
  refine (hwrite ..).bind fun _ => (within_validateInventory conclusive_quiet ..).bind fun _ => ?_
  refine (hverify ..).bind fun _ => within_actorTransition conclusive_quiet fun a millis => ?_
  exact within_storeJournal fun _ => conclusive_push _ (by simp) a millis

/-- An outcome is recorded and the host is restored. -/
theorem conclusive_finishRun (request : RunRequest) (coordinator : Actor) (outcome : Outcome) :
    Within HostOp.Conclusive (finishRun codec request coordinator j outcome) := by
  refine within_transition conclusive_quiet fun finished => ?_
  refine within_actorTransition conclusive_quiet fun a millis => ?_
  refine (within_storeJournal fun _ => conclusive_push _ (by simp) a millis).bind fun _ => ?_
  exact (conclusive_restore _).bind fun _ => (within_cleanupRuntime conclusive_quiet _).bind fun _ =>
    within_ofExcept _

end Conclusive

/-- From `q` a run stores the drain of its operation, calls `restore` and, without I/O errors and
foreign writes, ends: it reports the outcome, its journal is restored and every value is what
it was before the operation. Nothing that it stores says `Recoverable`. -/
structure RestoresHost (codec : Codec) (host : Host) (root : PathBuf) (id : String)
    (outcome : Outcome) (q : Prog HostOp HostAns (Except BenchError Unit)) (s : HostState) :
    Prop where
  conclusive : q.Within HostOp.Conclusive
  ends : ∃ r s', Reach (host.machine false false) (q, s) (.ret r, s')
  drained : ∀ r s', Reach (host.machine false false) (q, s) (.ret r, s') →
    ∃ d s₁, s₁.journals id = some d ∧ d.outcome = some (terminalOutcome outcome) ∧
      d.stages = [.prepared, .applied, .workloadStarted, .workloadFinished, .draining] ∧
      Reach (host.machine false false) (q, s) ((restoreDrained codec root outcome d).run, s₁) ∧
      Reach (host.machine false false) ((restoreDrained codec root outcome d).run, s₁) (.ret r, s')
  restored : ∀ r s', Reach (host.machine false false) (q, s) (.ret r, s') →
    r = outcomeResult (terminalOutcome outcome) ∧
    (∃ j, s'.journals id = some j ∧ j.outcome = some (terminalOutcome outcome) ∧
      j.stages = [.prepared, .applied, .workloadStarted, .workloadFinished, .draining, .restoring,
        .restored]) ∧
    ∃ before, s.before id = some before ∧ ∀ p, value s'.sysfs p = value before p

/-- Every run from the supervisor's answer records the drain first. -/
theorem AtSupervisor.drained {request : CoordinateRequest} {rest : AfterCoordinate Unit}
    (h : AtSupervisor codec host root base request rest s j) (outcome : Outcome)
    {r : Except BenchError Unit}
    (hr : Reach (host.machine false false) (rest (.ok outcome), s.enter request.operationId)
      (.ret r, s')) :
    ∃ d s₁, j.DrainedFrom outcome d ∧ HostInv codec host root base s₁ ∧
      Owns codec host root base request.operationId d s₁ ∧
      s₁.journals request.operationId = some d ∧
      Reach (host.machine false false) (rest (.ok outcome), s.enter request.operationId)
        ((restoreDrained codec root outcome d).run, s₁) ∧
      Reach (host.machine false false) ((restoreDrained codec root outcome d).run, s₁)
        (.ret r, s') := by
  obtain ⟨run, coordinator, rfl, hrest⟩ := h.rest
  rw [hrest, finishRun_eq] at hr ⊢
  have hI := h.inv.enter request.operationId
  have hown := h.owns.enter request.operationId
  rcases (host.closed false).reach_sequence hr with ⟨e, _, hfailed⟩ | ⟨d, s₁, hfirst, hto, hlast⟩
  · have hnever := (triple_recordDrain coordinator outcome).returns hI hown hfailed
    exact nomatch hnever.2
  · obtain ⟨hI₁, hd, hown₁, hstored⟩ :=
      (triple_recordDrain coordinator outcome).returns hI hown hfirst
    exact ⟨d, s₁, hd, hI₁, hown₁, hstored, hto, hlast⟩

/-- From the call of the supervisor on, its outcome restores the host. -/
theorem AtSupervisor.restoresHost {request : CoordinateRequest} {rest : AfterCoordinate Unit}
    (h : AtSupervisor codec host root base request rest s j) (outcome : Outcome) :
    RestoresHost codec host root request.operationId outcome (rest (.ok outcome))
      (s.enter request.operationId) := by
  have hstages : ∀ d, j.DrainedFrom outcome d →
      d.stages = [.prepared, .applied, .workloadStarted, .workloadFinished, .draining] := by
    intro d hd
    rw [Journal.stages, hd.stages, ← Journal.stages, h.stages]
    rfl
  have hconclusive : (rest (.ok outcome)).Within HostOp.Conclusive := by
    obtain ⟨run, coordinator, _, hrest⟩ := h.rest
    rw [hrest]
    exact conclusive_finishRun run coordinator outcome
  refine ⟨hconclusive, ?_, fun r s' hr => ?_, fun r s' hr => ?_⟩
  · exact hconclusive.loopFree.completes (fun op s hs => host.answers op s hs) h.inv.finite
  · obtain ⟨d, s₁, hd, _, _, hstored, hto, hlast⟩ := h.drained outcome hr
    exact ⟨d, s₁, hstored, hd.outcome, hstages d hd, hto, hlast⟩
  · obtain ⟨d, s₁, hd, hI₁, hown₁, _, _, hlast⟩ := h.drained outcome hr
    obtain ⟨_, hends⟩ := (triple_restoreDrained outcome).returns hI₁ hown₁ hlast
    have hrestored : r = outcomeResult (terminalOutcome outcome) ∧
        RestoredFrom base request.operationId d s' := by
      cases r with
      | ok u => exact ⟨hends.1.symm, hends.2⟩
      | error e =>
        obtain ⟨hr, hs'⟩ := hends.resolve_left (by decide)
        exact ⟨hr.symm, hs'⟩
    obtain ⟨hr', ⟨a, a', millis, millis', hj⟩, hvalues⟩ := hrestored
    refine ⟨hr', ⟨_, hj, hd.outcome, ?_⟩, ?_⟩
    · rw [stages_push, stages_push, hstages d hd]
      rfl
    · obtain ⟨d₀, hd₀, _⟩ := h.owns.disk
      obtain ⟨before, hbefore⟩ := Option.isSome_iff_exists.mp
        (h.inv.began _ (Option.isSome_iff_exists.mpr ⟨d₀, hd₀⟩))
      refine ⟨before, hbefore, fun p => ?_⟩
      rw [hvalues, h.inv.before _ before hbefore]

/-- Whatever happened before, a run that has called the supervisor and is answered an outcome
restores the host. -/
theorem calling_restoresHost {sysfsRoot stateRoot : PathBuf} {contents : Sysfs} {run : RunRequest}
    {request : CoordinateRequest} {rest : AfterCoordinate Unit}
    (hsession : Session codec host sysfsRoot stateRoot (.initial contents) s₀)
    (hr : Reach (host.machine true false)
      (((Invocation.run run).program codec sysfsRoot stateRoot).run, s₀)
      (.call (.coordinate request) rest, s)) (outcome : Outcome) :
    RestoresHost codec host sysfsRoot request.operationId outcome (rest (.ok outcome))
      (s.enter request.operationId) := by
  have hI := hostInv_session (hostInv_initial contents) hsession
  obtain ⟨j, h⟩ := before_coordinateRun _ rfl s₀ hI trivial request rest s hr
  exact h.restoresHost outcome

/-- Only the supervisor's call enters an operation. -/
theorem act_outside {op : HostOp} {x : HostAns op} (hop : op.Outside)
    (hact : host.act faults op s x s') : s'.entered = s.entered := by
  by_cases hstore : ∃ id j, op = .writeJournal id j
  · obtain ⟨id, j, rfl⟩ := hstore
    cases x with
    | ok u =>
      cases (hact : s' = s.store id j)
      rfl
    | error e =>
      obtain ⟨_, rfl | rfl⟩ := (hact : faults = true ∧ (s' = s ∨ s' = s.store id j))
      · rfl
      · rfl
  · exact (act_keeps_journals hact (fun id j h => hstore ⟨id, j, h⟩) hop).2

/-- A run that has entered the supervisor has called it. -/
theorem reach_coordinate {p q : Prog HostOp HostAns α}
    (hr : Reach (host.machine faults false) (p, s) (q, s')) (hentered : s'.entered ≠ s.entered) :
    ∃ request rest s₁, Reach (host.machine faults false) (p, s)
      (.call (.coordinate request) rest, s₁) := by
  generalize hc : (q, s') = c at hr
  induction hr generalizing q s' with
  | refl =>
    cases hc
    exact absurd rfl hentered
  | @tail c₁ c₂ hreach hstep ih =>
    obtain ⟨p₁, s₁⟩ := c₁
    subst hc
    by_cases hsame : s₁.entered = s.entered
    · cases hstep with
      | @call op rest x _ _ hact =>
        by_cases hop : op.Outside
        · exact absurd ((act_outside hop hact).trans hsame) hentered
        · obtain ⟨request, hrequest⟩ := not_forall_not.mp hop
          subst hrequest
          exact ⟨request, rest, s₁, hreach⟩
      | loop => exact absurd hsame hentered
      | env he => exact absurd he (host.closed faults _ _)
    · exact ih hsame rfl

end Snoozer.Benchctl
