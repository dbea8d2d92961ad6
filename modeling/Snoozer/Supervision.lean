import Snoozer.CpuIdleRun

/-! `tools/benchctl/src/supervision.rs`: the coordinator's side of a supervised run, the
workload supervisor and the crash guardian, as programs of separate processes. A
coordinator's program is the one of `cpuidle.rs` with the two calls into this file
expanded. -/
namespace Snoozer.Benchctl
open Interactive Fallible

/-! ### Calls of processes -/

/-- The children of a coordinator. -/
inductive Child where
  | supervisor | guardian
  deriving DecidableEq, Repr

inductive Signal where
  | sigterm | sigkill
  deriving DecidableEq, Repr

inductive Errno where
  | esrch
  | other (text : String)
  deriving DecidableEq, Repr

def Errno.display : Errno → String
  | .esrch => "ESRCH: No such process"
  | .other text => text

inductive TryLockError where
  | wouldBlock
  | error (source : IoError)
  deriving DecidableEq, Repr

def TryLockError.display : TryLockError → String
  | .wouldBlock => "lock acquisition failed because the operation would block"
  | .error source => source.message

/-- The empty files of an operation's runtime directory. -/
inductive RuntimeFile where
  | go | ready | drain | drained
  deriving DecidableEq, Repr

/-- `text` is how the standard library prints the status. -/
structure ExitStatus where
  code : Option Int
  signal : Option Int
  text : String
  deriving DecidableEq, Repr

def ExitStatus.success (status : ExitStatus) : Bool := status.code = some 0

structure SupervisorRequest where
  receipt : PathBuf
  executable : PathBuf
  operationId : String
  coordinatorPid : ℕ
  uid : ℕ
  gid : ℕ
  workload : List String
  productionControl : Bool
  deriving DecidableEq, Repr

structure GuardianRequest where
  coordinatorPid : ℕ
  pgid : ℕ
  deriving DecidableEq, Repr

/-- What the workload is started with, besides the image of the open descriptor. -/
structure WorkloadCommand where
  receipt : BuildReceipt
  operationId : String
  workload : List String
  uid : ℕ
  gid : ℕ
  productionControl : Bool
  deriving DecidableEq, Repr

/-- Calls of the three processes. `readDescriptor` is the whole reading loop of
`open_verified_executable`, and `elapsed` compares with the clock started last. -/
inductive ProcessOp where
  | host (op : HostOp)
  | processId
  | supervisorArguments
  | guardianArguments
  | createRuntime
  | fileExists (file : RuntimeFile)
  | publish (file : RuntimeFile)
  | writeStatus (operationId : String) (status : WorkloadStatus)
  | storeOutcome (operationId : String) (outcome : Outcome)
  | outcomeReadySeam (productionControl : Bool)
  | spawnSupervisor (request : SupervisorRequest)
  | spawnGuardian (request : GuardianRequest)
  | tryWait (child : Child)
  | wait (child : Child)
  | killpg (signal : Option Signal)
  | elapsed (limit : ℕ)
  | sleep
  | registerCancellation (clientWatch : Bool)
  | cancelled
  | hasParent
  | openActiveLock
  | lockActive
  | tryLockActive
  | productionProof (operationId buildId : String)
  | openExecutable (path : PathBuf)
  | descriptorIsFile
  | readDescriptor
  | rewindDescriptor
  | inheritDescriptor
  | spawnWorkload (command : WorkloadCommand)
  | waitWorkload
  | exit (success : Bool)
  deriving DecidableEq

abbrev ProcessAns : ProcessOp → Type
  | .host op => HostAns op
  | .processId => ℕ
  | .supervisorArguments => SupervisorRequest
  | .guardianArguments => GuardianRequest
  | .createRuntime => Except IoError Unit
  | .fileExists _ => Bool
  | .publish _ => Except BenchError Unit
  | .writeStatus _ _ => Except BenchError Unit
  | .storeOutcome _ _ => Except BenchError Unit
  | .outcomeReadySeam _ => Except BenchError Bool
  | .spawnSupervisor _ => Except IoError ℕ
  | .spawnGuardian _ => Except IoError Unit
  | .tryWait _ => Except IoError (Option ExitStatus)
  | .wait _ => Except IoError ExitStatus
  | .killpg _ => Except Errno Unit
  | .elapsed _ => Bool
  | .sleep => Unit
  | .registerCancellation _ => Except IoError Unit
  | .cancelled => Bool
  | .hasParent => Bool
  | .openActiveLock => Except IoError Unit
  | .lockActive => Except IoError Unit
  | .tryLockActive => Except TryLockError Unit
  | .productionProof _ _ => Except BenchError Unit
  | .openExecutable _ => Except IoError Unit
  | .descriptorIsFile => Except IoError Bool
  | .readDescriptor => Except IoError Bytes
  | .rewindDescriptor => Except IoError Unit
  | .inheritDescriptor => Except IoError Unit
  | .spawnWorkload _ => Except IoError Unit
  | .waitWorkload => Except IoError ExitStatus
  | .exit _ => Unit

abbrev Process := Fallible ProcessOp ProcessAns BenchError

def ofResult {α : Type} (result : Except BenchError α) : Process α := ExceptT.mk (Prog.ret result)

def ioOutcome {α : Type} (operation : String) (result : Except IoError α) : Process α :=
  ofResult (result.mapError (BenchError.io operation))

/-! ### Limits, in nanoseconds -/

def startupLimit : ℕ := 5000000000
def stopGrace : ℕ := 5000000000
def drainLimit : ℕ := 5000000000
def activeWait : ℕ := 12000000000

/-- `i32::try_from` on a process id. -/
def checkPid (pid : ℕ) (error : BenchError) : Process Unit :=
  if pid < 2 ^ 31 then return () else throw error

/-! ### Process groups -/

def signalGroup (signal : Signal) : Process Unit := do
  match ← ask (ProcessOp.killpg (some signal)) with
  | .ok () => return ()
  | .error .esrch => return ()
  | .error error => throw (.state s!"cannot signal workload process group: {error.display}")

def groupIsEmpty : Process Bool := do
  match ← ask (ProcessOp.killpg none) with
  | .error .esrch => return true
  | .ok () => return false
  | .error error => throw (.state s!"cannot inspect workload process group: {error.display}")

/-- Wait until the group is empty or the limit has passed; the coordinator reaps the
leader of the group on the way. -/
def awaitEmpty (reapLeader : Bool) (limit : ℕ) : Process Bool :=
  iterate do
    if ← ask (.elapsed limit) then
      return some false
    else
      if reapLeader then
        let _ ← ioOutcome "reaping workload supervisor" (← ask (.tryWait .supervisor))
      if ← groupIsEmpty then
        return some true
      else
        ask ProcessOp.sleep
        return none

/-- The body of `terminate_and_drain` and `terminate_and_reap_group`. -/
def terminateGroup (reapLeader : Bool) : Process Unit := do
  signalGroup .sigterm
  if ← awaitEmpty reapLeader stopGrace then
    return ()
  else
    signalGroup .sigkill
    if ← awaitEmpty reapLeader drainLimit then
      return ()
    else
      throw (.state "workload process group could not be proved empty")

def terminateAndDrain : Process Unit := terminateGroup false

def terminateAndReapGroup : Process Unit := terminateGroup true

/-! ### The coordinator -/

def waitForReady : Process Unit :=
  iterate do
    if ← ask (.fileExists .ready) then
      return some ()
    else
      match ← ioOutcome "checking guardian startup" (← ask (.tryWait .guardian)) with
      | some status =>
        terminateAndReapGroup
        throw (.state s!"crash guardian failed during startup: {status.text}")
      | none =>
        match ← ioOutcome "checking supervisor startup" (← ask (.tryWait .supervisor)) with
        | some status =>
          throw (.state s!"workload supervisor failed during startup: {status.text}")
        | none =>
          if ← ask (.elapsed startupLimit) then
            terminateAndReapGroup
            throw (.state "crash guardian startup timed out")
          else
            ask ProcessOp.sleep
            return none

/-- The loop of `coordinate`: a status record, a cancellation or the timeout ends it. -/
def awaitOutcome (operationId : String) (timeout : ℕ) : Process Outcome :=
  iterate do
    match ← ofResult (← ask (.host (.readStatus operationId))) with
    | some status => return some (statusOutcome status)
    | none =>
      if ← ask .cancelled then
        return some .cancelled
      else if ← ask (.elapsed timeout) then
        return some .timedOut
      else
        match ← ioOutcome "checking crash guardian" (← ask (.tryWait .guardian)) with
        | some status =>
          terminateAndReapGroup
          throw (.state s!"crash guardian exited before drain request: {status.text}")
        | none =>
          match ← ioOutcome "checking workload supervisor" (← ask (.tryWait .supervisor)) with
          | some status =>
            terminateAndDrain
            throw (.state s!"workload supervisor exited without a status record: {status.text}")
          | none =>
            ask ProcessOp.sleep
            return none

def waitForDrained : Process Unit :=
  iterate do
    if ← ask (.fileExists .drained) then
      return some ()
    else
      let _ ← ioOutcome "reaping workload supervisor" (← ask (.tryWait .supervisor))
      match ← ioOutcome "checking guardian drain" (← ask (.tryWait .guardian)) with
      | some status =>
        throw (.state s!"crash guardian exited without drain proof: {status.text}")
      | none =>
        if ← ask (.elapsed (stopGrace + drainLimit + 1000000000)) then
          throw (.state "timed out waiting for crash guardian drain proof")
        else
          ask ProcessOp.sleep
          return none

def sleepForever {α : Type} : Process α :=
  iterate do
    ask ProcessOp.sleep
    return none

/-- What follows the drain request. -/
def drainWorkload (outcome : Outcome) : Process Outcome := do
  ofResult (← ask (.publish .drain))
  waitForDrained
  let guardianStatus ← ioOutcome "reaping crash guardian" (← ask (.wait .guardian))
  if !guardianStatus.success then
    throw (.state s!"crash guardian failed during drain: {guardianStatus.text}")
  else
    let supervisorStatus ← ioOutcome "reaping workload supervisor" (← ask (.wait .supervisor))
    if supervisorStatus.success then
      throw (.state "workload supervisor escaped guardian drain")
    else
      return outcome

/-- What follows the start of both children. -/
def authorizeWorkload (request : CoordinateRequest) : Process Outcome := do
  waitForReady
  ofResult (← ask (.publish .go))
  ioOutcome "installing cancellation handler" (← ask (.registerCancellation request.clientWatch))
  let outcome ← awaitOutcome request.operationId request.timeout
  ofResult (← ask (.storeOutcome request.operationId outcome))
  if ← ofResult (← ask (.outcomeReadySeam request.productionControl)) then
    sleepForever
  else
    drainWorkload outcome

def Supervision.coordinate (request : CoordinateRequest) : Process Outcome := do
  ioOutcome "creating operation runtime directory" (← ask .createRuntime)
  let coordinatorPid ← ask .processId
  let _ ← ioOutcome "resolving benchctl executable" (← ask (.host .currentExe))
  let pid ← ioOutcome "starting workload supervisor" (← ask (.spawnSupervisor {
    receipt := request.receipt
    executable := request.executable
    operationId := request.operationId
    coordinatorPid := coordinatorPid
    uid := request.uid
    gid := request.gid
    workload := request.workload
    productionControl := request.productionControl }))
  checkPid pid (.state "workload PID is outside the PID range")
  match ← ask (ProcessOp.spawnGuardian ⟨coordinatorPid, pid⟩) with
  | .error error =>
    terminateAndReapGroup
    throw (.io "starting crash guardian" error)
  | .ok () => authorizeWorkload request

def requireInactive : Process Unit := do
  ioOutcome "opening active-operation lock" (← ask .openActiveLock)
  iterate do
    match ← ask ProcessOp.tryLockActive with
    | .ok () => return some ()
    | .error .wouldBlock =>
      if ← ask (.elapsed activeWait) then
        throw (.state ("active workload cleanup has not released its lock: " ++
          TryLockError.wouldBlock.display))
      else
        ask ProcessOp.sleep
        return none
    | .error error =>
      throw (.state s!"active workload cleanup has not released its lock: {error.display}")

/-- What a coordinator's call does here. -/
def expandCall : (op : HostOp) → Prog ProcessOp ProcessAns (HostAns op)
  | .coordinate request => (Supervision.coordinate request).run
  | .requireInactive => requireInactive.run
  | op => .perform (ProcessOp.host op)

/-- A program of `cpuidle.rs` as a process. -/
def asProcess {α : Type} (p : Bench α) : Process α := expand expandCall p

/-! ### The workload supervisor -/

section Supervisor

variable (codec : Codec)

def awaitGo : Process Unit :=
  iterate do
    if ← ask (.fileExists .go) then
      return some ()
    else if ← ask (.elapsed startupLimit) then
      throw (.state "coordinator disappeared before workload authorization")
    else if !(← ask .hasParent) then
      throw (.state "coordinator disappeared before workload authorization")
    else
      ask ProcessOp.sleep
      return none

def openVerifiedExecutable (path : PathBuf) (expectedDigest : String) : Process Unit := do
  ioOutcome "opening accepted executable snapshot" (← ask (.openExecutable path))
  if !(← ioOutcome "inspecting accepted executable snapshot" (← ask .descriptorIsFile)) then
    throw (.preflight "accepted executable snapshot is not a regular file")
  else
    let bytes ← ioOutcome "digesting accepted executable snapshot" (← ask .readDescriptor)
    if codec.hexDigest bytes ≠ expectedDigest then
      throw (.preflight "accepted executable snapshot digest no longer matches")
    else
      ioOutcome "rewinding accepted executable snapshot" (← ask .rewindDescriptor)
      ioOutcome "making accepted executable snapshot inheritable" (← ask .inheritDescriptor)

def launchWorkload (request : SupervisorRequest) : Process ExitStatus := do
  let receipt ← asProcess (loadAcceptedReceipt codec request.receipt)
  if request.productionControl then
    ofResult (← ask (.productionProof request.operationId receipt.buildId))
  openVerifiedExecutable codec request.executable receipt.executableSha256
  ioOutcome "starting unprivileged workload" (← ask (.spawnWorkload {
    receipt := receipt
    operationId := request.operationId
    workload := request.workload
    uid := request.uid
    gid := request.gid
    productionControl := request.productionControl }))
  ioOutcome "starting unprivileged workload" (← ask .waitWorkload)

def workloadSupervisor (request : SupervisorRequest) : Process Unit := do
  checkPid request.coordinatorPid (.usage "coordinator PID is outside the PID range")
  awaitGo
  let status ← launchWorkload codec request
  ofResult (← ask (.writeStatus request.operationId
    ⟨status.success, status.code, status.signal⟩))
  sleepForever

end Supervisor

/-! ### The crash guardian -/

def guardian (request : GuardianRequest) : Process Unit := do
  ioOutcome "opening active-operation lock" (← ask .openActiveLock)
  ioOutcome "locking active operation" (← ask .lockActive)
  ofResult (← ask (.publish .ready))
  checkPid request.coordinatorPid (.usage "coordinator PID is outside the PID range")
  iterate do
    let requested ← ask (.fileExists .drain)
    let coordinatorGone := !(← ask .hasParent)
    if requested || coordinatorGone then
      terminateAndDrain
      if requested then
        ofResult (← ask (.publish .drained))
      return some ()
    else
      ask ProcessOp.sleep
      return none

/-! ### Whole processes -/

/-- A process ends with its program, successfully if that did not fail. -/
def process (body : Process Unit) : Process Unit := do
  let result ← attempt body
  ask (ProcessOp.exit result.isOk)

def supervisorProcess (codec : Codec) : Process Unit :=
  process do workloadSupervisor codec (← ask .supervisorArguments)

def guardianProcess : Process Unit :=
  process do guardian (← ask .guardianArguments)

end Snoozer.Benchctl
