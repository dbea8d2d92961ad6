import Snoozer.SupervisionWorld

/-! The protocols of the processes around a supervised run: what each of them may do and
when, as far as it can tell by its own calls. -/
namespace Snoozer.Benchctl
open Interactive Fallible Protocol InvocationPhase

section Ignored

variable {Φ α : Type} {N : Protocol ProcessOp ProcessAns Φ} {P : Φ → Prop}

theorem obeys_ofResult (r : Except BenchError α) :
    N.Obeys P (ofResult r) (fun _ => P) fun _ => P := by
  cases r with
  | ok a => exact obeys_pure fun _ h => h
  | error e => exact obeys_throw fun _ h => h

variable (hkill : ∀ signal, N.Ignores (.killpg signal)) (helapsed : ∀ limit, N.Ignores (.elapsed limit))
  (hsleep : N.Ignores .sleep)

include hkill in
theorem obeys_signalGroup (signal : Signal) :
    N.Obeys P (signalGroup signal) (fun _ => P) fun _ => P := by
  apply (obeys_ignored (hkill _)).bind
  rintro (error | u)
  · cases error with
    | esrch => exact obeys_pure fun _ h => h
    | other text => exact obeys_throw fun _ h => h
  · exact obeys_pure fun _ h => h

include hkill in
theorem obeys_groupIsEmpty : N.Obeys P groupIsEmpty (fun _ => P) fun _ => P := by
  apply (obeys_ignored (hkill _)).bind
  rintro (error | u)
  · cases error with
    | esrch => exact obeys_pure fun _ h => h
    | other text => exact obeys_throw fun _ h => h
  · exact obeys_pure fun _ h => h

include hkill helapsed hsleep in
/-- Waiting for an empty group is allowed wherever its reaping is ignored. -/
theorem obeys_awaitEmpty (reapLeader : Bool) (limit : ℕ)
    (hreap : reapLeader = true → N.Ignores (.tryWait .supervisor)) :
    N.Obeys P (awaitEmpty reapLeader limit) (fun _ => P) fun _ => P := by
  apply Obeys.iterate
  apply (obeys_ignored (helapsed _)).bind
  intro passed
  apply obeys_ite
  · exact fun _ => obeys_pure fun φ hφ => ⟨fun _ => hφ, fun _ _ => hφ⟩
  intro _
  have hround : N.Obeys P (do
      if ← groupIsEmpty then
        return some true
      else
        ask ProcessOp.sleep
        return none) (fun o φ => (o = none → P φ) ∧ ∀ a, o = some a → P φ) fun _ => P := by
    apply (obeys_groupIsEmpty hkill).bind
    intro empty
    apply obeys_ite
    · exact fun _ => obeys_pure fun φ hφ => ⟨fun _ => hφ, fun _ _ => hφ⟩
    intro _
    apply (obeys_ignored hsleep).bind
    exact fun _ => obeys_pure fun φ hφ => ⟨fun _ => hφ, fun _ _ => hφ⟩
  apply obeys_ite
  · intro hleader
    apply (obeys_ignored (hreap hleader)).bind
    intro x
    apply (obeys_ofResult _).bind
    exact fun _ => hround
  · exact fun _ => hround

include hkill helapsed hsleep in
/-- So is the termination of the group. -/
theorem obeys_terminateGroup (reapLeader : Bool)
    (hreap : reapLeader = true → N.Ignores (.tryWait .supervisor)) :
    N.Obeys P (terminateGroup reapLeader) (fun _ => P) fun _ => P := by
  apply (obeys_signalGroup hkill .sigterm).bind
  intro _
  apply (obeys_awaitEmpty hkill helapsed hsleep reapLeader stopGrace hreap).bind
  intro empty
  apply obeys_ite
  · exact fun _ => obeys_pure fun _ h => h
  intro _
  apply (obeys_signalGroup hkill .sigkill).bind
  intro _
  apply (obeys_awaitEmpty hkill helapsed hsleep reapLeader drainLimit hreap).bind
  intro empty
  exact obeys_ite (fun _ => obeys_pure fun _ h => h) fun _ => obeys_throw fun _ h => h

end Ignored

/-- `emptied` is reached when the group was found empty. -/
inductive GuardianPhase where
  | starting | locked | readied | emptied
  deriving DecidableEq

def guardianProtocol : Protocol ProcessOp ProcessAns GuardianPhase where
  next γ
    | .lockActive => fun (x : Except IoError Unit) =>
      if γ = .starting then some (if x.isOk then .locked else γ) else none
    | .publish .ready => fun _ => if γ = .locked then some .readied else none
    | .publish .drained => fun _ => if γ = .emptied then some γ else none
    | .killpg none => fun (x : Except Errno Unit) => match x with
      | .error .esrch => if γ = .readied ∨ γ = .emptied then some .emptied else none
      | _ => some γ
    | .exit success => fun _ => if success = true → γ = .emptied then some γ else none
    | .guardianArguments => fun _ => some γ
    | .openActiveLock => fun _ => some γ
    | .fileExists _ => fun _ => some γ
    | .hasParent => fun _ => some γ
    | .killpg (some _) => fun _ => some γ
    | .elapsed _ => fun _ => some γ
    | .sleep => fun _ => some γ
    | _ => fun _ => none

section Guardian

variable {α : Type} {P : GuardianPhase → Prop} {B : BenchError → GuardianPhase → Prop}

theorem guardian_ofResult {r : Except BenchError α} (hB : ∀ e γ, P γ → B e γ) :
    guardianProtocol.Obeys P (ofResult r) (fun _ => P) B := by
  cases r with
  | ok a => exact obeys_pure fun _ h => h
  | error e => exact obeys_throw (hB e)

/-- The group is found empty while the guardian watches it. -/
def GuardianPhase.Watching (γ : GuardianPhase) : Prop := γ = .readied ∨ γ = .emptied

theorem guardian_signalGroup (signal : Signal) :
    guardianProtocol.Obeys GuardianPhase.Watching (signalGroup signal)
      (fun _ => GuardianPhase.Watching) fun _ _ => True := by
  apply (obeys_ignored fun _ _ => rfl).bind
  rintro (_ | _)
  · next error =>
    cases error with
    | esrch => exact obeys_pure fun _ h => h
    | other text => exact obeys_throw fun _ _ => trivial
  · exact obeys_pure fun _ h => h

/-- A group that was found empty is emptied. -/
theorem guardian_groupIsEmpty :
    guardianProtocol.Obeys GuardianPhase.Watching groupIsEmpty
      (fun empty γ => γ.Watching ∧ (empty = true → γ = .emptied)) fun _ _ => True := by
  apply Obeys.bind (A := fun (x : Except Errno Unit) γ =>
    γ.Watching ∧ (x = .error .esrch → γ = .emptied))
  · apply obeys_ask
    rintro γ x hγ
    cases x with
    | ok u => exact ⟨γ, rfl, hγ, fun h => nomatch h⟩
    | error error =>
      cases error with
      | esrch => exact ⟨.emptied, if_pos hγ, Or.inr rfl, fun _ => rfl⟩
      | other text => exact ⟨γ, rfl, hγ, fun h => nomatch h⟩
  rintro (error | u)
  · cases error with
    | esrch => exact obeys_pure fun γ hγ => ⟨hγ.1, fun _ => hγ.2 rfl⟩
    | other text => exact obeys_throw fun _ _ => trivial
  · exact obeys_pure fun γ hγ => ⟨hγ.1, fun h => nomatch h⟩

/-- Waiting for an empty group ends with one, or without a finding. -/
theorem guardian_awaitEmpty (limit : ℕ) :
    guardianProtocol.Obeys GuardianPhase.Watching (awaitEmpty false limit)
      (fun empty γ => γ.Watching ∧ (empty = true → γ = .emptied)) fun _ _ => True := by
  apply Obeys.iterate
  apply (obeys_ignored fun _ _ => rfl).bind
  intro passed
  apply obeys_ite
  · intro _
    apply obeys_pure
    intro γ hγ
    refine ⟨fun h => (nomatch h), ?_⟩
    rintro _ ⟨⟩
    exact ⟨hγ, fun h => nomatch h⟩
  intro _
  change guardianProtocol.Obeys _ (groupIsEmpty >>= fun _ => _) _ _
  apply guardian_groupIsEmpty.bind
  intro empty
  apply obeys_ite
  · intro hempty
    apply obeys_pure
    intro γ hγ
    refine ⟨fun h => (nomatch h), ?_⟩
    rintro _ ⟨⟩
    exact ⟨hγ.1, fun _ => hγ.2 hempty⟩
  · intro _
    apply (obeys_ignored (P := GuardianPhase.Watching) fun _ _ => rfl).conseq (fun γ h => h.1)
      (fun _ _ h => h) (fun _ _ h => h) |>.bind
    intro _
    exact obeys_pure fun γ hγ => ⟨fun _ => hγ, fun _ h => nomatch h⟩

/-- A drain that succeeds has found the group empty. -/
theorem guardian_terminateAndDrain :
    guardianProtocol.Obeys GuardianPhase.Watching terminateAndDrain (fun _ γ => γ = .emptied)
      fun _ _ => True := by
  apply (guardian_signalGroup .sigterm).bind
  intro _
  apply (guardian_awaitEmpty stopGrace).bind
  intro empty
  apply obeys_ite
  · intro hempty
    exact obeys_pure fun γ hγ => hγ.2 hempty
  intro _
  apply ((guardian_signalGroup .sigkill).conseq (fun γ h => h.1) (fun _ _ h => h)
    fun _ _ h => h).bind
  intro _
  apply (guardian_awaitEmpty drainLimit).bind
  intro empty
  apply obeys_ite
  · intro hempty
    exact obeys_pure fun γ hγ => hγ.2 hempty
  · exact fun _ => obeys_throw fun _ _ => trivial

/-- A guardian that succeeds has found the group empty. -/
theorem guardian_guardian (request : GuardianRequest) :
    guardianProtocol.Obeys (· = .starting) (guardian request) (fun _ γ => γ = .emptied)
      fun _ _ => True := by
  apply (obeys_ignored fun _ _ => rfl).bind
  intro x
  apply (guardian_ofResult fun _ _ _ => trivial).bind
  intro _
  apply Obeys.bind (A := fun (x : Except IoError Unit) γ => x.isOk = true → γ = .locked)
  · apply obeys_ask
    rintro _ x rfl
    exact ⟨_, rfl, fun hx => by rw [if_pos hx]⟩
  rintro (e | u)
  · exact obeys_throw fun _ _ => trivial
  apply Obeys.bind (A := fun _ γ => γ = .locked)
  · exact obeys_pure fun _ h => h rfl
  intro _
  apply Obeys.bind (A := fun _ γ => γ = .readied)
  · apply obeys_ask
    rintro _ x rfl
    exact ⟨_, rfl, rfl⟩
  intro x
  apply (guardian_ofResult fun _ _ _ => trivial).bind
  intro _
  apply Obeys.bind (A := fun _ γ => γ = .readied)
  · exact obeys_ite (fun _ => obeys_pure fun _ h => h) fun _ => obeys_throw fun _ _ => trivial
  intro _
  apply Obeys.iterate
  apply (obeys_ignored fun _ _ => rfl).bind
  intro requested
  apply (obeys_ignored fun _ _ => rfl).bind
  intro hasParent
  apply obeys_ite
  · intro _
    apply (guardian_terminateAndDrain.conseq (fun γ h => Or.inl h) (fun _ _ h => h)
      fun _ _ h => h).bind
    intro _
    apply obeys_ite
    · intro _
      apply Obeys.bind (A := fun _ γ => γ = .emptied)
      · apply obeys_ask
        rintro _ x rfl
        exact ⟨_, rfl, rfl⟩
      intro x
      apply (guardian_ofResult fun _ _ _ => trivial).bind
      intro _
      exact obeys_pure fun γ hγ => ⟨fun h => (nomatch h), fun _ _ => hγ⟩
    · intro _
      exact obeys_pure fun γ hγ => ⟨fun h => (nomatch h), fun _ _ => hγ⟩
  · intro _
    apply (obeys_ignored fun _ _ => rfl).bind
    intro _
    exact obeys_pure fun γ hγ => ⟨fun _ => hγ, fun _ h => nomatch h⟩

/-- The guardian says ready only with its lock, and succeeds only after an empty group. -/
theorem guardian_process :
    guardianProtocol.Obeys (· = .starting) guardianProcess (fun _ _ => True) fun _ _ => True := by
  apply Obeys.bind (A := fun (r : Except BenchError Unit) γ => r.isOk = true → γ = .emptied)
  · apply Obeys.attempt
    apply (obeys_ignored fun _ _ => rfl).bind
    intro request
    exact (guardian_guardian request).conseq (fun _ h => h) (fun _ _ h _ => h)
      fun _ _ _ h => nomatch h
  intro r
  apply obeys_ask
  intro γ x hγ
  exact ⟨γ, if_pos hγ, trivial⟩

end Guardian

/-- `released` is reached when the supervisor has seen the go file. -/
inductive SupervisorPhase where
  | starting
  | waiting (request : SupervisorRequest)
  | released (request : SupervisorRequest)
  deriving DecidableEq

def SupervisorPhase.release : SupervisorPhase → SupervisorPhase
  | .waiting request => .released request
  | φ => φ

/-- Calls that leave the host as it is. -/
def HostOp.looks : HostOp → Bool
  | .removeRuntime _ => false
  | op => op.quiet

theorem HostOp.quiet_of_looks {op : HostOp} (h : op.looks = true) : op.quiet = true := by
  cases op <;> first | exact h | cases h

def supervisorProtocol : Protocol ProcessOp ProcessAns SupervisorPhase where
  next φ
    | .supervisorArguments => fun (request : SupervisorRequest) =>
      if φ = .starting then some (.waiting request) else none
    | .fileExists .go => fun (x : Bool) => some (if x then φ.release else φ)
    | .spawnWorkload command => fun _ => match φ with
      | .released request => if command.operationId = request.operationId then some φ else none
      | _ => none
    | .host op => fun _ => if op.looks then some φ else none
    | .exit success => fun _ => if success then none else some φ
    | .elapsed _ => fun _ => some φ
    | .hasParent => fun _ => some φ
    | .sleep => fun _ => some φ
    | .productionProof _ _ => fun _ => some φ
    | .openExecutable _ => fun _ => some φ
    | .descriptorIsFile => fun _ => some φ
    | .readDescriptor => fun _ => some φ
    | .rewindDescriptor => fun _ => some φ
    | .inheritDescriptor => fun _ => some φ
    | .waitWorkload => fun _ => some φ
    | .writeStatus _ _ => fun _ => some φ
    | _ => fun _ => none

section Supervisor

variable {codec : Codec} {α : Type} {P : SupervisorPhase → Prop}

theorem supervisor_ofResult (r : Except BenchError α) :
    supervisorProtocol.Obeys P (ofResult r) (fun _ => P) fun _ _ => True := by
  cases r with
  | ok a => exact obeys_pure fun _ h => h
  | error e => exact obeys_throw fun _ _ => trivial

/-- A call whose error ends the program. -/
theorem supervisor_try {op : ProcessOp} {f : ProcessAns op → Process α}
    (hop : ∀ φ x, supervisorProtocol.next φ op x = some φ)
    (hf : ∀ x, supervisorProtocol.Obeys P (f x) (fun _ => P) fun _ _ => True) :
    supervisorProtocol.Obeys P (ask op >>= f) (fun _ => P) fun _ _ => True :=
  (obeys_ignored hop).bind hf

/-- Loading the receipt changes nothing that the protocol of the supervisor records. -/
theorem supervisor_loadAcceptedReceipt (path : PathBuf) :
    supervisorProtocol.Obeys P (asProcess (loadAcceptedReceipt codec path)) (fun _ => P)
      fun _ _ => True := by
  have hdigest : ∀ (path : PathBuf) (operation : String),
      Within (fun op : HostOp => op.looks = true) (fileDigest codec path operation) :=
    fun _ _ => within_call rfl fun _ => (within_ofExcept _).bind fun _ => within_pure _
  have hverify : ∀ receipt : BuildReceipt,
      Within (fun op : HostOp => op.looks = true) (receipt.verifyIdentity codec) := fun receipt =>
    .ite (within_throw _) <| .ite (within_throw _) <| .ite (within_throw _) <|
      within_call rfl fun _ => (within_ofExcept _).bind fun _ => (hdigest ..).bind fun _ =>
      .ite (within_throw _) <| .ite (within_throw _) (within_pure _)
  have hwithin : Within (fun op : HostOp => op.looks = true) (loadAcceptedReceipt codec path) :=
    within_call rfl fun _ => (within_ofExcept _).bind fun _ => (within_ofExcept _).bind fun receipt =>
      (hverify receipt).bind fun _ => within_pure _
  apply (obeys_expand_within _ hwithin).conseq (fun _ h => h) (fun _ _ h => h) fun _ _ _ => trivial
  intro op φ hop hφ
  have hexpand : expandCall op = .perform (ProcessOp.host op) := by
    cases op <;> first | rfl | cases hop
  rw [hexpand]
  apply follows_call
  intro x
  exact ⟨φ, if_pos hop, follows_ret hφ⟩

/-- Nor does opening the verified executable. -/
theorem supervisor_openVerifiedExecutable (path : PathBuf) (digest : String) :
    supervisorProtocol.Obeys P (openVerifiedExecutable codec path digest) (fun _ => P)
      fun _ _ => True := by
  apply supervisor_try fun _ _ => rfl
  intro x
  apply (supervisor_ofResult _).bind
  intro _
  apply supervisor_try fun _ _ => rfl
  intro x
  apply (supervisor_ofResult _).bind
  intro isFile
  apply obeys_ite
  · exact fun _ => obeys_throw fun _ _ => trivial
  intro _
  apply supervisor_try fun _ _ => rfl
  intro x
  apply (supervisor_ofResult _).bind
  intro bytes
  apply obeys_ite
  · exact fun _ => obeys_throw fun _ _ => trivial
  intro _
  apply supervisor_try fun _ _ => rfl
  intro x
  apply (supervisor_ofResult _).bind
  intro _
  apply supervisor_try fun _ _ => rfl
  exact fun x => supervisor_ofResult _

/-- A supervisor goes on when it has been released. -/
theorem supervisor_awaitGo (request : SupervisorRequest) :
    supervisorProtocol.Obeys (· = .waiting request) awaitGo (fun _ φ => φ = .released request)
      fun _ _ => True := by
  apply Obeys.iterate
  apply Obeys.bind (A := fun (x : Bool) φ =>
    if x then φ = .released request else φ = .waiting request)
  · apply obeys_ask
    rintro _ x rfl
    refine ⟨_, rfl, ?_⟩
    cases x <;> rfl
  intro x
  apply obeys_ite
  · intro hx
    apply obeys_pure
    intro φ hφ
    rw [if_pos hx] at hφ
    exact ⟨fun h => (nomatch h), fun _ _ => hφ⟩
  intro hx
  simp only [if_neg hx]
  apply (obeys_ignored fun _ _ => rfl).bind
  intro passed
  apply obeys_ite
  · exact fun _ => obeys_throw fun _ _ => trivial
  intro _
  apply (obeys_ignored fun _ _ => rfl).bind
  intro hasParent
  apply obeys_ite
  · exact fun _ => obeys_throw fun _ _ => trivial
  intro _
  apply (obeys_ignored fun _ _ => rfl).bind
  intro _
  exact obeys_pure fun φ hφ => ⟨fun _ => hφ, fun _ h => nomatch h⟩

/-- It launches the workload only after that. -/
theorem supervisor_launchWorkload (request : SupervisorRequest) :
    supervisorProtocol.Obeys (· = .released request) (launchWorkload codec request)
      (fun _ φ => φ = .released request) fun _ _ => True := by
  apply (supervisor_loadAcceptedReceipt _).bind
  intro receipt
  have hrest : supervisorProtocol.Obeys (· = .released request) (do
      openVerifiedExecutable codec request.executable receipt.executableSha256
      ioOutcome "starting unprivileged workload" (← ask (.spawnWorkload {
        receipt := receipt
        operationId := request.operationId
        workload := request.workload
        uid := request.uid
        gid := request.gid
        productionControl := request.productionControl }))
      ioOutcome "starting unprivileged workload" (← ask .waitWorkload))
      (fun _ φ => φ = .released request) fun _ _ => True := by
    apply (supervisor_openVerifiedExecutable _ _).bind
    intro _
    apply Obeys.bind (A := fun _ φ => φ = .released request)
    · apply obeys_ask
      rintro _ x rfl
      exact ⟨_, if_pos rfl, rfl⟩
    intro x
    apply (supervisor_ofResult _).bind
    intro _
    apply supervisor_try fun _ _ => rfl
    exact fun x => supervisor_ofResult _
  apply obeys_ite
  · intro _
    apply supervisor_try fun _ _ => rfl
    intro x
    apply (supervisor_ofResult _).bind
    exact fun _ => hrest
  · exact fun _ => hrest

/-- The workload is started only after the go file was seen, and the supervisor never
ends with success. -/
theorem supervisor_process :
    supervisorProtocol.Obeys (· = .starting) (supervisorProcess codec) (fun _ _ => True)
      fun _ _ => True := by
  apply Obeys.bind (A := fun (r : Except BenchError Unit) _ => r.isOk = false)
  · apply Obeys.attempt
    apply Obeys.bind (A := fun request φ => φ = .waiting request)
    · apply obeys_ask
      rintro _ request rfl
      exact ⟨_, rfl, rfl⟩
    intro request
    apply Obeys.bind (A := fun _ φ => φ = .waiting request)
    · exact obeys_ite (fun _ => obeys_pure fun _ h => h) fun _ => obeys_throw fun _ _ => rfl
    intro _
    apply ((supervisor_awaitGo request).conseq (fun _ h => h) (fun _ _ h => h)
      fun _ _ _ => rfl).bind
    intro _
    apply ((supervisor_launchWorkload request).conseq (fun _ h => h) (fun _ _ h => h)
      fun _ _ _ => rfl).bind
    intro status
    apply (obeys_ignored fun _ _ => rfl).bind
    intro x
    apply ((supervisor_ofResult x).conseq (fun _ h => h) (fun _ _ h => h) fun _ _ _ => rfl).bind
    intro _
    -- The last loop has no end.
    apply Obeys.iterate
    apply (obeys_ignored fun _ _ => rfl).bind
    intro _
    exact obeys_pure fun φ hφ => ⟨fun _ => hφ, fun _ h => nomatch h⟩
  intro r
  apply obeys_ask
  intro φ x hφ
  refine ⟨φ, ?_, trivial⟩
  change (if r.isOk = true then none else some φ) = some φ
  rw [hφ]
  rfl

end Supervisor

end Snoozer.Benchctl
