import Snoozer.Supervision
import Snoozer.InvocationRuns

/-! The processes around one supervised run and what they share: the tree and the
journals, the runtime files, the two locks, and the process group of the workload. Any
process may be killed at any time, which releases its locks. -/
namespace Snoozer.Benchctl
open Interactive

/-- The invocation whose run this is, and later ones on the same roots, numbered. -/
inductive Invoker where
  | coordinator
  | later (n : ℕ)
  deriving DecidableEq

inductive Party where
  | invoker (i : Invoker)
  | supervisor
  | guardian
  deriving DecidableEq

inductive GuardianState where
  | unspawned
  | running
  | exited (success : Bool)
  deriving DecidableEq

/-- The leader of the workload group is the supervisor. -/
inductive LeaderState where
  | unspawned
  | alive
  | zombie (success : Bool)
  | reaped (success : Bool)
  deriving DecidableEq

/-- Who has `active.lock`: this run's guardian, or a process of another run. -/
inductive ActiveHolder where
  | guardian | other
  deriving DecidableEq

/-- `files` is the runtime directory of this run's operation. The last four fields are
history: the runtime files that ever were published, whether the guardian got its lock,
whether the workload was started, and what the coordinator did to the tree. -/
structure World where
  host : HostState
  files : RuntimeFile → Bool
  operation : Option String
  supervisorRequest : Option SupervisorRequest
  guardianRequest : Option GuardianRequest
  lock : Option Invoker
  active : Option ActiveHolder
  running : Invoker → Bool
  guardian : GuardianState
  leader : LeaderState
  members : ℕ
  published : RuntimeFile → Bool
  acquired : Bool
  executed : Bool
  tree : List TreeEvent

namespace World

/-- Nothing runs but invocations, and there is no runtime directory. -/
def initial (host : HostState) : World where
  host := host
  files _ := false
  operation := none
  supervisorRequest := none
  guardianRequest := none
  lock := none
  active := none
  running _ := true
  guardian := .unspawned
  leader := .unspawned
  members := 0
  published _ := false
  acquired := false
  executed := false
  tree := []

def runs (w : World) : Party → Prop
  | .invoker i => w.running i = true
  | .supervisor => w.leader = .alive
  | .guardian => w.guardian = .running

/-- No process is left in the group; a leader that was not reaped still counts. -/
def groupEmpty (w : World) : Prop := (∃ b, w.leader = .reaped b) ∧ w.members = 0

/-- The workload was authorised. -/
def authorised (w : World) : Bool := w.published .go

def publish (w : World) (file : RuntimeFile) : World :=
  { w with
    files := Function.update w.files file true
    published := Function.update w.published file true }

/-- A process ends, by itself or killed, and its locks with it. -/
def ended (w : World) (success : Bool) : Party → World
  | .invoker i =>
    { w with
      running := Function.update w.running i false
      lock := if w.lock = some i then none else w.lock }
  | .supervisor => { w with leader := .zombie success }
  | .guardian =>
    { w with
      guardian := .exited success
      active := if w.active = some .guardian then none else w.active }

end World

/-- Calls on the host, with the lock and the runtime directory made explicit. A removal
that fails may have removed anything. The two calls into `supervision.rs` are not made by
processes: their programs are. -/
def hostAct (host : Host) (r : Party) : (op : HostOp) → World → HostAns op → World → Prop
  | .lockFor _, w, x, w' => match x with
    | .ok _ => w.lock = none ∧ ∃ i, r = .invoker i ∧ w' = { w with lock := some i }
    | .error _ => w' = w
  | .removeRuntime id, w, x, w' => ∃ files : RuntimeFile → Bool,
    (∀ f, files f = true → w.files f = true) ∧ (w.operation ≠ some id → files = w.files) ∧
    (x.isOk = true → w.operation = some id → files = fun _ => false) ∧ w' = { w with files := files }
  | .coordinate _, _, _, _ => False
  | .requireInactive, _, _, _ => False
  | op, w, x, w' => ∃ s, host.act true op w.host x s ∧ w' = { w with
      host := s
      tree := if r = .invoker .coordinator then w.tree ++ (treeEvent ⟨op, x⟩).toList else w.tree }

/-- The coordinator's calls on its children, its runtime directory and the group. -/
def childAct (host : Host) (r : Party) : (op : ProcessOp) → World → ProcessAns op → World → Prop
  | .host op, w, x, w' => hostAct host r op w x w'
  | .supervisorArguments, w, x, w' => w.supervisorRequest = some x ∧ w' = w
  | .guardianArguments, w, x, w' => w.guardianRequest = some x ∧ w' = w
  | .fileExists file, w, x, w' => x = w.files file ∧ w' = w
  | .publish file, w, x, w' => w' = w.publish file ∨ x.isOk = false ∧ w' = w
  | .spawnSupervisor request, w, x, w' => match x with
    | .ok _ => w.leader = .unspawned ∧ w' = { w with
        leader := .alive
        operation := some request.operationId
        supervisorRequest := some request }
    | .error _ => w' = w
  | .spawnGuardian request, w, x, w' => match x with
    | .ok _ => w.guardian = .unspawned ∧ w' = { w with
        guardian := .running
        guardianRequest := some request }
    | .error _ => w' = w
  | .tryWait .guardian, w, x, w' => w' = w ∧ match x with
    | .ok none => w.guardian = .running
    | .ok (some status) => w.guardian = .exited status.success
    | .error _ => True
  | .tryWait .supervisor, w, x, w' => match x with
    | .ok none => w.leader = .alive ∧ w' = w
    | .ok (some status) =>
      (w.leader = .zombie status.success ∨ w.leader = .reaped status.success) ∧
        w' = { w with leader := .reaped status.success }
    | .error _ => w' = w
  | .wait .guardian, w, x, w' => w' = w ∧ match x with
    | .ok status => w.guardian = .exited status.success
    | .error _ => True
  | .wait .supervisor, w, x, w' => match x with
    | .ok status =>
      (w.leader = .zombie status.success ∨ w.leader = .reaped status.success) ∧
        w' = { w with leader := .reaped status.success }
    | .error _ => w' = w
  | .killpg _, w, x, w' => w' = w ∧ match x with
    | .ok _ => ¬ w.groupEmpty
    | .error .esrch => w.groupEmpty
    | .error (.other _) => True
  | .hasParent, w, x, w' => x = w.running .coordinator ∧ w' = w
  | .lockActive, w, x, w' => match x with
    | .ok _ => w.active = none ∧ w' = { w with active := some .guardian, acquired := true }
    | .error _ => w' = w
  | .tryLockActive, w, x, w' => w' = w ∧ match x with
    | .ok _ => w.active = none
    | .error .wouldBlock => w.active ≠ none
    | .error (.error _) => True
  | .spawnWorkload _, w, x, w' => match x with
    | .ok _ => w' = { w with members := w.members + 1, executed := true }
    | .error _ => w' = w
  | .exit success, w, _, w' => w' = w.ended success r
  | _, w, _, w' => w' = w

/-- A later invocation has a runtime directory, children and a group of its own. -/
def laterAct (host : Host) (n : ℕ) : (op : ProcessOp) → World → ProcessAns op → World → Prop
  | .host op, w, x, w' => hostAct host (.invoker (.later n)) op w x w'
  | .tryLockActive, w, x, w' => childAct host (.invoker (.later n)) .tryLockActive w x w'
  | .exit success, w, _, w' => w' = w.ended success (.invoker (.later n))
  | _, w, _, w' => w' = w

/-- What happens without any of the processes taking a step. -/
inductive WorldEnv : World → World → Prop where
  | killed {w : World} (r : Party) : w.runs r → WorldEnv w (w.ended false r)
  | forked {w : World} : (w.leader = .alive ∨ 0 < w.members) →
      WorldEnv w { w with members := w.members + 1 }
  | memberExited {w : World} {n : ℕ} : w.members = n + 1 → WorldEnv w { w with members := n }
  | adopted {w : World} {b : Bool} : w.running .coordinator = false → w.leader = .zombie b →
      WorldEnv w { w with leader := .reaped b }
  | otherLocked {w : World} : w.active = none → WorldEnv w { w with active := some .other }
  | otherReleased {w : World} : w.active = some .other → WorldEnv w { w with active := none }

/-- A process that does not run takes no step. -/
def supervisionParties (host : Host) : Parties Party ProcessOp ProcessAns World where
  act r op w x w' := w.runs r ∧ match r with
    | .invoker (.later n) => laterAct host n op w x w'
    | r => childAct host r op w x w'
  env := WorldEnv

/-- The invocations: one run, and whatever follows it. -/
def invocationOf (request : RunRequest) (later : ℕ → Invocation) : Invoker → Invocation
  | .coordinator => .run request
  | .later n => later n

/-- The programs of the processes. -/
def supervisionPrograms (codec : Codec) (sysfsRoot stateRoot : PathBuf) (request : RunRequest)
    (later : ℕ → Invocation) : Pool Party ProcessOp ProcessAns fun _ => Except BenchError Unit
  | .invoker i => (process (asProcess
      ((invocationOf request later i).program codec sysfsRoot stateRoot))).run
  | .supervisor => (supervisorProcess codec).run
  | .guardian => guardianProcess.run

instance (w : World) (r : Party) : Decidable (w.runs r) := by
  cases r <;> exact inferInstanceAs (Decidable (_ = _))

instance (w : World) : Decidable w.groupEmpty :=
  decidable_of_iff ((∃ b, w.leader = .reaped b) ∧ w.members = 0) Iff.rfl

def serveHost (host : Host) (id : String) (r : Party) :
    (op : HostOp) → World → Option (HostAns op × World)
  | .lockFor _, w => match r with
    | .invoker i => if w.lock = none then some (.ok (), { w with lock := some i }) else none
    | _ => none
  | .removeRuntime _, w => some (.error ⟨""⟩, w)
  | .coordinate _, _ => none
  | .requireInactive, _ => none
  | op, w =>
    let answer := host.serve id op w.host
    some (answer.1, { w with
      host := answer.2
      tree := if r = .invoker .coordinator then w.tree ++ (treeEvent ⟨op, answer.1⟩).toList
        else w.tree })

def exitStatus (success : Bool) : ExitStatus :=
  if success then ⟨some 0, none, "exit status: 0"⟩ else ⟨some 1, none, "exit status: 1"⟩

/-- A cancelled run whose signals do nothing; `elapsed` says whether limits have passed. -/
def serveChild (host : Host) (id : String) (elapsed : Bool) (r : Party) :
    Server ProcessOp ProcessAns World
  | .host op, w => serveHost host id r op w
  | .supervisorArguments, w => w.supervisorRequest.map fun request => (request, w)
  | .guardianArguments, w => w.guardianRequest.map fun request => (request, w)
  | .fileExists file, w => some (w.files file, w)
  | .publish file, w => some (.ok (), w.publish file)
  | .spawnSupervisor request, w => if w.leader = .unspawned then some (.ok 2, { w with
        leader := .alive
        operation := some request.operationId
        supervisorRequest := some request })
      else none
  | .spawnGuardian request, w => if w.guardian = .unspawned then some (.ok (), { w with
        guardian := .running
        guardianRequest := some request })
      else none
  | .tryWait .guardian, w => match w.guardian with
    | .unspawned => none
    | .running => some (.ok none, w)
    | .exited success => some (.ok (some (exitStatus success)), w)
  | .tryWait .supervisor, w => match w.leader with
    | .unspawned => none
    | .alive => some (.ok none, w)
    | .zombie success => some (.ok (some (exitStatus success)), { w with leader := .reaped success })
    | .reaped success => some (.ok (some (exitStatus success)), w)
  | .wait .guardian, w => match w.guardian with
    | .exited success => some (.ok (exitStatus success), w)
    | _ => none
  | .wait .supervisor, w => match w.leader with
    | .zombie success => some (.ok (exitStatus success), { w with leader := .reaped success })
    | .reaped success => some (.ok (exitStatus success), w)
    | _ => none
  | .killpg _, w => some (if w.groupEmpty then .error .esrch else .ok (), w)
  | .hasParent, w => some (w.running .coordinator, w)
  | .lockActive, w =>
    if w.active = none then some (.ok (), { w with active := some .guardian, acquired := true })
    else none
  | .tryLockActive, w => some (if w.active = none then .ok () else .error .wouldBlock, w)
  | .spawnWorkload _, w => some (.ok (), { w with members := w.members + 1, executed := true })
  | .exit success, w => some ((), w.ended success r)
  | .processId, w => some ((1 : ℕ), w)
  | .createRuntime, w => some (.ok (), w)
  | .writeStatus _ _, w => some (.ok (), w)
  | .storeOutcome _ _, w => some (.ok (), w)
  | .outcomeReadySeam _, w => some (.ok false, w)
  | .elapsed _, w => some (elapsed, w)
  | .sleep, w => some ((), w)
  | .registerCancellation _, w => some (.ok (), w)
  | .cancelled, w => some (true, w)
  | .openActiveLock, w => some (.ok (), w)
  | .productionProof _ _, w => some (.ok (), w)
  | .openExecutable _, w => some (.ok (), w)
  | .descriptorIsFile, w => some (.ok true, w)
  | .readDescriptor, w => some (.ok [], w)
  | .rewindDescriptor, w => some (.ok (), w)
  | .inheritDescriptor, w => some (.ok (), w)
  | .waitWorkload, _ => none

def serveLater (host : Host) (id : String) (n : ℕ) : Server ProcessOp ProcessAns World
  | .host op, w => serveHost host id (.invoker (.later n)) op w
  | .tryLockActive, w => serveChild host id false (.invoker (.later n)) .tryLockActive w
  | .exit success, w => some ((), w.ended success (.invoker (.later n)))
  | .openActiveLock, w => some (.ok (), w)
  | _, _ => none

def serveParty (host : Host) (id : String) (elapsed : Party → Bool) (r : Party) :
    Server ProcessOp ProcessAns World := fun op w =>
  if w.runs r then match r with
    | .invoker (.later n) => serveLater host id n op w
    | r => serveChild host id (elapsed r) r op w
  else none

/-- A served call on the host is one that the world allows. -/
theorem serveHost_act {host : Host} {id : String} {r : Party} {op : HostOp} {w w' : World}
    {x : HostAns op} (hw : w.host.Only id) (h : serveHost host id r op w = some (x, w')) :
    hostAct host r op w x w' ∧ w'.host.Only id := by
  obtain ⟨hact, honly⟩ := host.serve_act id op w.host hw
  cases op with
  | lockFor wait =>
    cases r with
    | invoker i =>
      simp only [serveHost] at h
      split at h
      · next hlock =>
        cases h
        exact ⟨⟨hlock, i, rfl, rfl⟩, hw⟩
      · cases h
    | supervisor => cases h
    | guardian => cases h
  | removeRuntime id' =>
    cases h
    exact ⟨⟨w.files, fun _ hf => hf, fun _ => rfl, fun hx => (nomatch hx), rfl⟩, hw⟩
  | coordinate request => cases h
  | requireInactive => cases h
  | _ =>
    cases h
    exact ⟨⟨_, hact, rfl⟩, honly⟩

@[simp] theorem exitStatus_success (success : Bool) : (exitStatus success).success = success := by
  cases success <;> rfl

/-- A served call of the supervision is one that the world allows. -/
theorem serveChild_act {host : Host} {id : String} {elapsed : Bool} {r : Party} {op : ProcessOp}
    {w w' : World} {x : ProcessAns op} (hw : w.host.Only id)
    (h : serveChild host id elapsed r op w = some (x, w')) :
    childAct host r op w x w' ∧ w'.host.Only id := by
  cases op with
  | host op => exact serveHost_act hw h
  | supervisorArguments =>
    obtain ⟨request, hrequest, hpair⟩ := Option.map_eq_some_iff.mp h
    cases hpair
    exact ⟨⟨hrequest, rfl⟩, hw⟩
  | guardianArguments =>
    obtain ⟨request, hrequest, hpair⟩ := Option.map_eq_some_iff.mp h
    cases hpair
    exact ⟨⟨hrequest, rfl⟩, hw⟩
  | spawnSupervisor request =>
    simp only [serveChild] at h
    split at h
    · next hleader =>
      cases h
      exact ⟨⟨hleader, rfl⟩, hw⟩
    · cases h
  | spawnGuardian request =>
    simp only [serveChild] at h
    split at h
    · next hguardian =>
      cases h
      exact ⟨⟨hguardian, rfl⟩, hw⟩
    · cases h
  | tryWait child =>
    cases child with
    | guardian =>
      simp only [serveChild] at h
      split at h
      · cases h
      · next hguardian =>
        cases h
        exact ⟨⟨rfl, hguardian⟩, hw⟩
      · next hguardian =>
        cases h
        exact ⟨⟨rfl, by simpa using hguardian⟩, hw⟩
    | supervisor =>
      simp only [serveChild] at h
      split at h
      · cases h
      · next hleader =>
        cases h
        exact ⟨⟨hleader, rfl⟩, hw⟩
      · next hleader =>
        cases h
        exact ⟨⟨by rw [exitStatus_success]; exact Or.inl hleader, by rw [exitStatus_success]⟩, hw⟩
      · next hleader =>
        cases h
        refine ⟨⟨by rw [exitStatus_success]; exact Or.inr hleader, ?_⟩, hw⟩
        rw [exitStatus_success, ← hleader]
  | wait child =>
    cases child with
    | guardian =>
      simp only [serveChild] at h
      split at h
      · next hguardian =>
        cases h
        exact ⟨⟨rfl, by simpa using hguardian⟩, hw⟩
      · cases h
    | supervisor =>
      simp only [serveChild] at h
      split at h
      · next hleader =>
        cases h
        exact ⟨⟨by rw [exitStatus_success]; exact Or.inl hleader, by rw [exitStatus_success]⟩, hw⟩
      · next hleader =>
        cases h
        refine ⟨⟨by rw [exitStatus_success]; exact Or.inr hleader, ?_⟩, hw⟩
        rw [exitStatus_success, ← hleader]
      · cases h
  | killpg signal =>
    cases h
    refine ⟨⟨rfl, ?_⟩, hw⟩
    by_cases hempty : w.groupEmpty
    · rw [if_pos hempty]
      exact hempty
    · rw [if_neg hempty]
      exact hempty
  | lockActive =>
    simp only [serveChild] at h
    split at h
    · next hactive =>
      cases h
      exact ⟨⟨hactive, rfl⟩, hw⟩
    · cases h
  | tryLockActive =>
    cases h
    refine ⟨⟨rfl, ?_⟩, hw⟩
    by_cases hactive : w.active = none
    · rw [if_pos hactive]
      exact hactive
    · rw [if_neg hactive]
      exact hactive
  | exit success =>
    cases h
    refine ⟨rfl, ?_⟩
    cases r <;> exact hw
  | fileExists file => cases h; exact ⟨⟨rfl, rfl⟩, hw⟩
  | publish file => cases h; exact ⟨Or.inl rfl, hw⟩
  | hasParent => cases h; exact ⟨⟨rfl, rfl⟩, hw⟩
  | waitWorkload => cases h
  | _ => cases h; exact ⟨rfl, hw⟩

/-- The server's answers are possible ones. -/
theorem serveParty_act {host : Host} {id : String} {elapsed : Party → Bool} (r : Party)
    (op : ProcessOp) (w : World) (x : ProcessAns op) (w' : World) (hw : w.host.Only id)
    (h : serveParty host id elapsed r op w = some (x, w')) :
    (supervisionParties host).act r op w x w' ∧ w'.host.Only id := by
  unfold serveParty at h
  split at h
  case isFalse => cases h
  next hruns =>
  rcases r with (_ | n) | _ | _
  · obtain ⟨hact, hw'⟩ := serveChild_act hw h
    exact ⟨⟨hruns, hact⟩, hw'⟩
  · have hlater : laterAct host n op w x w' ∧ w'.host.Only id := by
      cases op with
      | host op => exact serveHost_act hw h
      | tryLockActive =>
        have h : serveChild host id false (.invoker (.later n)) .tryLockActive w = some (x, w') := h
        exact serveChild_act hw h
      | exit success => cases h; exact ⟨rfl, hw⟩
      | openActiveLock => cases h; exact ⟨rfl, hw⟩
      | _ => cases h
    exact ⟨⟨hruns, hlater.1⟩, hlater.2⟩
  · obtain ⟨hact, hw'⟩ := serveChild_act hw h
    exact ⟨⟨hruns, hact⟩, hw'⟩
  · obtain ⟨hact, hw'⟩ := serveChild_act hw h
    exact ⟨⟨hruns, hact⟩, hw'⟩

end Snoozer.Benchctl
