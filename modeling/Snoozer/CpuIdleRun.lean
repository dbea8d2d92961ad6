import Snoozer.CpuIdle

/-! The two commands of the coordinator: `coordinate_run`, from the acceptance of a
receipt to the restored host, and `recover`. -/
namespace Snoozer.Benchctl
open Interactive Fallible

variable (codec : Codec)

def receiptVersion : String := "benchctl-build-receipt-v1"

def fileDigest (path : PathBuf) (operation : String) : Bench String := do
  let bytes ← ioResult operation (← ask (.readFile path))
  return codec.hexDigest bytes

def receiptDigest (path : PathBuf) : Bench String := fileDigest codec path "digesting build receipt"

/-- `features.windows(2).any(|pair| pair[0] >= pair[1])`. -/
def featuresUnordered : List String → Bool
  | a :: b :: rest => decide (a ≥ b) || featuresUnordered (b :: rest)
  | _ => false

namespace BuildReceipt

/-- The digest is over every field but `build_id`. -/
def identityDigest (receipt : BuildReceipt) : String :=
  codec.hexDigest (codec.identityBytes { receipt with buildId := "" })

def fieldsInvalid (receipt : BuildReceipt) : Bool :=
  receipt.profile ≠ "bench" || receipt.benchctlVersion ≠ codec.packageVersion ||
    receipt.bench.isEmpty || receipt.packageId.isEmpty || receipt.sourceCommit.isEmpty ||
    receipt.lockfileSha256.isEmpty || receipt.rustc.isEmpty || receipt.rustupToolchain.isEmpty ||
    receipt.targetTriple.isEmpty || !receipt.manifestPath.absolute ||
    !receipt.repository.absolute || !receipt.lockfilePath.absolute ||
    !receipt.lockfilePath.startsWith receipt.repository || !receipt.executable.absolute ||
    receipt.features.any String.isEmpty || featuresUnordered receipt.features

def verifyIdentity (receipt : BuildReceipt) : Bench Unit :=
  if receipt.version ≠ receiptVersion then
    throw (.preflight s!"unsupported build receipt version: {receipt.version}")
  else if !receipt.sourceClean then
    throw (.preflight "official build receipt is not clean")
  else if receipt.fieldsInvalid codec then
    throw (.preflight "build receipt has incomplete or invalid identity fields")
  else do
    let benchctl ← ioResult "resolving Benchctl executable" (← ask .currentExe)
    let actualBenchctl ← fileDigest codec benchctl "digesting Benchctl executable"
    if actualBenchctl ≠ receipt.benchctlExecutableSha256 then
      throw (.preflight "build receipt belongs to a different Benchctl executable")
    else if receipt.identityDigest codec ≠ receipt.buildId then
      throw (.preflight "build receipt identity digest does not match its fields")
    else
      return ()

def verify (receipt : BuildReceipt) : Bench Unit := do
  receipt.verifyIdentity codec
  let actual ← fileDigest codec receipt.executable "digesting receipt executable"
  if actual ≠ receipt.executableSha256 then
    throw (.preflight "receipt executable digest no longer matches")
  else
    return ()

end BuildReceipt

/-- `serde_json::from_slice` with the operation named in the error. -/
def parseReceipt (operation : String) (bytes : Bytes) : Bench BuildReceipt :=
  ofExcept ((codec.parseReceipt bytes).mapError (BenchError.json operation))

def loadReceipt (path : PathBuf) : Bench BuildReceipt := do
  let bytes ← ioResult "reading build receipt" (← ask (.readFile path))
  let receipt ← parseReceipt codec "reading build receipt" bytes
  receipt.verify codec
  return receipt

def loadAcceptedReceipt (path : PathBuf) : Bench BuildReceipt := do
  let bytes ← ioResult "reading accepted build receipt" (← ask (.readFile path))
  let receipt ← parseReceipt codec "reading accepted build receipt" bytes
  receipt.verifyIdentity codec
  return receipt

def terminalOutcome : Outcome → TerminalOutcome
  | .success => .success
  | .failed status => .failed status
  | .timedOut => .timedOut
  | .cancelled => .cancelled

def renderStatus (status : WorkloadStatus) : String :=
  match status.code, status.signal with
  | some code, _ => s!"exit code {code}"
  | none, some signal => s!"signal {signal}"
  | none, none => "unknown exit status"

def statusOutcome (status : WorkloadStatus) : Outcome :=
  if status.success then .success else .failed (renderStatus status)

def recoverOutcome (operationId : String) : Bench (Option Outcome) := do
  match ← ofExcept (← ask (.readOutcome operationId)) with
  | some outcome => return some outcome
  | none =>
    let status ← ofExcept (← ask (.readStatus operationId))
    return status.map statusOutcome

def reconcileRuntimeOutcome (operationId : String) (journal : Journal) : Bench Journal :=
  if journal.outcome.isNone then do
    match ← recoverOutcome journal.operationId with
    | some outcome =>
      let journal := { journal with outcome := some (terminalOutcome outcome) }
      storeJournal codec operationId journal
      return journal
    | none => return journal
  else
    return journal

/-- The result that a workload outcome stands for. -/
def outcomeResult : TerminalOutcome → Except BenchError Unit
  | .success => .ok ()
  | .failed status => .error (.workload status)
  | .timedOut => .error (.workload "timeout elapsed")
  | .cancelled => .error (.workload "cancelled by signal")

def replayOutcome (journal : Journal) : Bench Unit :=
  match journal.outcome with
  | some outcome => ofExcept (outcomeResult outcome)
  | none => throw (.state (s!"operation {journal.operationId} was restored " ++
      "without a recorded workload outcome"))

def cleanupRuntime (operationId : String) : Bench Unit := do
  ioResult "removing operation runtime directory" (← ask (.removeRuntime operationId))

structure RunRequest where
  operationId : Option String
  receiptPath : PathBuf
  cpus : List ℕ
  timeout : ℕ
  workload : List String
  sysfsRoot : PathBuf
  stateRoot : PathBuf
  clientPid : Option ℕ
  deriving DecidableEq, Repr

def realSysfsRoot : PathBuf := ⟨true, ["sys", "devices", "system", "cpu"]⟩

def isRealRoot (path : PathBuf) : Bool := path = realSysfsRoot

def secureStateDirectory : Bench Unit := do
  ioResult "securing operation state directory" (← ask (.secureStateRoot 0o700))
  let metadata ← ioResult "inspecting operation state directory" (← ask .stateRootMetadata)
  if metadata.isSymlink ∨ !metadata.isDir then
    throw (.preflight "operation state root must be a real directory")
  else
    let current ← actor
    if metadata.uid ≠ current.uid ∨ metadata.mode % 0o1000 ≠ 0o700 then
      throw (.preflight "operation state root must be owned by the coordinator with mode 0700")
    else
      return ()

/-- The two locks, taken in order. -/
def enterStateDirectory (wait : Bool) : Bench Unit := do
  ioResult "creating operation state directory" (← ask .createStateRoot)
  secureStateDirectory
  ofExcept (← ask (.lockFor wait))
  ofExcept (← ask .requireInactive)

def normalizeCpus (cpus : List ℕ) : Bench (List ℕ) :=
  if cpus.isEmpty then
    throw (.usage "at least one CPU is required")
  else if (dedup (sortUnstable cpus)).length ≠ (sortUnstable cpus).length then
    throw (.usage "CPU IDs must be distinct")
  else
    return dedup (sortUnstable cpus)

/-- What `coordinate_run` knows when it looks for a journal. -/
structure Acceptance where
  operationId : String
  receipt : BuildReceipt
  recorded : Request

def chooseOperationId : Option String → Bench String
  | some operationId => return operationId
  | none => ask HostOp.newOperationId

def acceptRequest (request : RunRequest) : Bench Acceptance := do
  enterStateDirectory false
  let workloadActor ← ofExcept (← ask .invokingActor)
  let receipt ← loadReceipt codec request.receiptPath
  ofExcept (← ask (.verifyCheckout receipt workloadActor))
  let receiptHash ← receiptDigest codec request.receiptPath
  let operationId ← chooseOperationId request.operationId
  journalPath operationId
  return {
    operationId := operationId
    receipt := receipt
    recorded := {
      receipt := request.receiptPath
      acceptedReceipt := request.stateRoot.join (operationId ++ ".receipt")
      receiptDigest := receiptHash
      acceptedExecutable := request.stateRoot.join (operationId ++ ".executable")
      executableDigest := receipt.executableSha256
      cpus := request.cpus
      timeoutSeconds := request.timeout / 1000000000
      workload := request.workload
      workloadActor := workloadActor } }

/-- The branch taken when the operation already has a journal. -/
def replayJournal (accepted : Acceptance) : Bench Unit := do
  let existing ← loadJournal codec accepted.operationId
  if existing.requestHash ≠ accepted.recorded.digest codec then
    throw (.requestConflict accepted.operationId)
  else if existing.stage = .restored then
    replayOutcome existing
  else
    throw (.recoveryRequired accepted.operationId)

/-- Copy the receipt and the executable into the state directory and check the copies. -/
def acceptSnapshots (accepted : Acceptance) : Bench Unit := do
  let receiptBytes ← ioResult "snapshotting accepted build receipt"
    (← ask (.readFile accepted.recorded.receipt))
  ofExcept (← ask (.atomicWrite accepted.recorded.acceptedReceipt receiptBytes))
  let copyDigest ← receiptDigest codec accepted.recorded.acceptedReceipt
  if copyDigest ≠ accepted.recorded.receiptDigest then
    throw (.preflight "build receipt changed while it was being accepted")
  else
    let copy ← loadReceipt codec accepted.recorded.acceptedReceipt
    if copy ≠ accepted.receipt then
      throw (.preflight "build receipt changed while it was being accepted")
    else
      let executableBytes ← ioResult "snapshotting accepted executable"
        (← ask (.readFile accepted.receipt.executable))
      ofExcept (← ask (.atomicWrite accepted.recorded.acceptedExecutable executableBytes))
      ioResult "securing accepted executable snapshot"
        (← ask (.setPermissions accepted.recorded.acceptedExecutable 0o555))
      let digest ← fileDigest codec accepted.recorded.acceptedExecutable
        "digesting accepted executable snapshot"
      if digest ≠ accepted.receipt.executableSha256 then
        throw (.preflight "benchmark executable changed while it was being accepted")
      else
        return ()

/-- After a finished workload: record it, restore the host and report. -/
def finishRun (request : RunRequest) (coordinator : Actor) (journal : Journal)
    (outcome : Outcome) : Bench Unit := do
  let journal := { journal with outcome := some (terminalOutcome outcome) }
  let journal ← journal.transition .workloadFinished coordinator
  let journal ← journal.transition .draining (← actor)
  storeJournal codec journal.operationId journal
  restore codec request.sysfsRoot journal.operationId journal
  cleanupRuntime journal.operationId
  ofExcept (outcomeResult (terminalOutcome outcome))

/-- `supervision::coordinate`, from outside. -/
def coordinate (request : CoordinateRequest) : Bench (Except BenchError Outcome) :=
  ask (HostOp.coordinate request)

/-- From a host with the policy applied to the end of the operation. -/
def superviseRun (request : RunRequest) (accepted : Acceptance) (clientWatch : Bool)
    (coordinator : Actor) (journal : Journal) : Bench Unit := do
  let journal ← journal.transition .applied coordinator
  storeJournal codec accepted.operationId journal
  let journal ← journal.transition .workloadStarted coordinator
  storeJournal codec accepted.operationId journal
  let result ← coordinate {
    operationId := accepted.operationId
    receipt := accepted.recorded.acceptedReceipt
    executable := accepted.recorded.acceptedExecutable
    workload := request.workload
    uid := accepted.recorded.workloadActor.uid
    gid := accepted.recorded.workloadActor.gid
    timeout := request.timeout
    clientWatch := clientWatch
    productionControl := isRealRoot request.sysfsRoot }
  match result with
  | .ok outcome => finishRun codec request coordinator journal outcome
  | .error error =>
    let journal ← reconcileRuntimeOutcome codec accepted.operationId journal
    let journal ← journal.transition .recoverable (← actor)
    storeJournal codec accepted.operationId journal
    throw error

/-- The branch taken for a new operation. -/
def executeRun (request : RunRequest) (accepted : Acceptance) : Bench Unit := do
  requireNoUnfinishedJournal codec
  let clientWatch ← ofExcept (← ask (.clientWatch request.clientPid))
  acceptSnapshots codec accepted
  ofExcept (← ask .pauseAfterExecutableSnapshot)
  let coordinator ← actor
  let bootId ← readBootId
  let journal ← Journal.new codec accepted.operationId accepted.recorded coordinator bootId
  let entries ← inventory request.sysfsRoot request.cpus
  let journal := { journal with entries := entries }
  storeJournal codec accepted.operationId journal
  match ← attempt (apply request.sysfsRoot journal.entries) with
  | .ok () => superviseRun codec request accepted clientWatch coordinator journal
  | .error error =>
    match ← attempt (restore codec request.sysfsRoot accepted.operationId journal) with
    | .ok () => throw error
    | .error restoreError =>
      throw (.state (s!"apply failed ({error.display}); " ++
        s!"cleanup also failed ({restoreError.display})"))

/-- The journal lookup, `path.exists()`, and what follows it. -/
def lookupJournal (request : RunRequest) (accepted : Acceptance) : Bench Unit := do
  if ← ask (.journalExists accepted.operationId) then
    replayJournal codec accepted
  else
    executeRun codec request accepted

def coordinateRun (request : RunRequest) : Bench Unit := do
  let cpus ← normalizeCpus request.cpus
  let request := { request with cpus := cpus }
  let accepted ← acceptRequest codec request
  lookupJournal codec request accepted

def recoverJournal (sysfsRoot : PathBuf) (operationId : String) : Bench Unit := do
  let journal ← loadJournal codec operationId
  if journal.stage = .restored then
    cleanupRuntime journal.operationId
  else
    let bootId ← readBootId
    if journal.bootId ≠ bootId then
      throw (.state "operation belongs to another Linux boot; automatic recovery is refused")
    else
      let journal ← reconcileRuntimeOutcome codec operationId journal
      restore codec sysfsRoot operationId journal
      cleanupRuntime journal.operationId

def recover (sysfsRoot : PathBuf) (operationId : Option String) : Bench Unit := do
  enterStateDirectory true
  match ← selectJournals codec operationId true with
  | [operationId] => recoverJournal codec sysfsRoot operationId
  | [] => throw (.state "there is no recoverable operation")
  | _ => throw (.state "more than one operation is recoverable; provide an operation ID")

end Snoozer.Benchctl
