import Snoozer.Benchctl

/-! `tools/benchctl/src/cpuidle.rs` and the parts of `journal.rs`, `receipt.rs` and
`supervision.rs` that its coordinator runs: a run and a recovery of one operation.
`supervision::coordinate` is one call here. -/
namespace Snoozer.Benchctl
open Interactive Fallible

variable (codec : Codec)

def loadJournal (operationId : String) : Bench Journal := do
  let journal ← ofExcept (← ask (.readJournal operationId))
  ofExcept (journal.validate codec)
  return journal

def storeJournal (operationId : String) (journal : Journal) : Bench Unit := do
  ofExcept (journal.validate codec)
  ofExcept (← ask (.writeJournal operationId journal))

def Journal.new (operationId : String) (request : Request) (coordinator : Actor)
    (bootId : String) : Bench Journal := do
  let unixMillis ← ask .nowMillis
  return {
    version := journalVersion
    operationId := operationId
    request := request
    requestHash := request.digest codec
    coordinator := coordinator
    bootId := bootId
    entries := []
    outcome := none
    transitions := [⟨.prepared, coordinator, unixMillis⟩] }

def actor : Bench Actor := ask HostOp.actor

def Journal.transition (journal : Journal) (stage : Stage) (actor : Actor) : Bench Journal := do
  let unixMillis ← ask .nowMillis
  return journal.push stage actor unixMillis

/-- The id check of `journal_path`; the path itself is the id here. -/
def journalPath (operationId : String) : Bench Unit :=
  if validOperationId operationId then return ()
  else throw (.usage "operation id must contain only ASCII letters, digits, '-' or '_'")

def readBootId : Bench String := do
  let contents ← ioResult "reading boot identity" (← ask .bootId)
  return trim contents

/-- The name of the operation's file in the state root. -/
def journalFileName (operationId : String) : String := operationId ++ ".json"

/-- The `for entry in fs::read_dir` loop of `select_journals`. -/
def selectJournalsLoop (recoverableOnly : Bool) : List (Except IoError String) →
    Bench (List String)
  | [] => return []
  | entry :: rest => do
    let operationId ← ioResult "listing operation entry" entry
    if recoverableOnly then
      let journal ← loadJournal codec operationId
      let selected ← selectJournalsLoop recoverableOnly rest
      return if journal.stage = .restored then selected else operationId :: selected
    else
      let selected ← selectJournalsLoop recoverableOnly rest
      return operationId :: selected

def selectJournals (operationId : Option String) (recoverableOnly : Bool) :
    Bench (List String) := do
  match operationId with
  | some operationId =>
    journalPath operationId
    if ← ask (.journalExists operationId) then
      return [operationId]
    else
      return []
  | none =>
    if ← ask .stateRootExists then
      let entries ← ioResult "listing operation state" (← ask .listJournals)
      let selected ← selectJournalsLoop codec recoverableOnly entries
      return selected.insertionSort fun a b => journalFileName a ≤ journalFileName b
    else
      return []

def requireFinished : List String → Bench Unit
  | [] => return ()
  | operationId :: rest => do
    let journal ← loadJournal codec operationId
    if journal.stage ≠ .restored then
      throw (.recoveryRequired journal.operationId)
    else
      requireFinished rest

def requireNoUnfinishedJournal : Bench Unit := do
  requireFinished codec (← selectJournals codec none false)

def readTrimmed (path : PathBuf) (operation : String) : Bench String := do
  let contents ← ioResult operation (← ask (.readToString path))
  return trim contents

def readBit (path : PathBuf) : Bench String := do
  let value ← readTrimmed path "reading cpuidle value"
  if value ≠ "0" ∧ value ≠ "1" then
    throw (.state s!"cpuidle value is not 0 or 1: {path.display}")
  else
    return value

def writeBit (path : PathBuf) (value : String) : Bench Unit := do
  ioResult "writing cpuidle value" (← ask (.write path (value ++ "\n")))
  let actual ← readBit path
  if actual ≠ value then
    throw (.state (s!"cpuidle readback failed for {path.display}: " ++
      s!"expected {value}, found {actual}"))
  else
    return ()

def rejectSymlink (path : PathBuf) : Bench Unit := do
  let isSymlink ← ioResult "inspecting controlled path" (← ask (.symlinkMetadata path))
  if isSymlink then
    throw (.preflight s!"symbolic links are rejected: {path.display}")
  else
    return ()

/-- What the loop over one CPU's states accumulates. -/
structure CpuScan where
  pollCount : ℕ
  c1Count : ℕ
  entries : List IdleEntry
  deriving DecidableEq

def CpuScan.push (scan : CpuScan) (entry : IdleEntry) : CpuScan where
  pollCount := if entry.name = "POLL" then scan.pollCount + 1 else scan.pollCount
  c1Count := if entry.name = "C1" then scan.c1Count + 1 else scan.c1Count
  entries := scan.entries ++ [entry]

/-- The value that the `POLL`/`C1` policy asks of a state. -/
def desiredValue (name : String) : String := if name = "POLL" ∨ name = "C1" then "0" else "1"

/-- One directory of a CPU's states; other names are skipped. -/
def inventoryItem (cpu : ℕ) (root : PathBuf) (fileName : String) : Bench (Option IdleEntry) :=
  match stripPrefix "state" fileName with
  | none => return none
  | some index =>
    match parseUsize index with
    | none => throw (.preflight s!"invalid cpuidle state directory: {index}")
    | some state => do
      let stateRoot := root.join fileName
      rejectSymlink stateRoot
      let namePath := stateRoot.join "name"
      let disablePath := stateRoot.join "disable"
      rejectSymlink namePath
      rejectSymlink disablePath
      let name ← readTrimmed namePath "reading cpuidle state name"
      let original ← readBit disablePath
      return some { cpu, state, name, disablePath, original, desired := desiredValue name }

def inventoryItems (cpu : ℕ) (root : PathBuf) : List (Except IoError String) → CpuScan →
    Bench CpuScan
  | [], scan => return scan
  | item :: rest, scan => do
    let fileName ← ioResult "reading cpuidle entry" item
    match ← inventoryItem cpu root fileName with
    | none => inventoryItems cpu root rest scan
    | some entry => inventoryItems cpu root rest (scan.push entry)

def cpuRoot (sysfsRoot : PathBuf) (cpu : ℕ) : PathBuf := sysfsRoot.join ("cpu" ++ toString cpu)

def inventoryCpu (sysfsRoot : PathBuf) (cpu : ℕ) : Bench (List IdleEntry) := do
  rejectSymlink (cpuRoot sysfsRoot cpu)
  let root := (cpuRoot sysfsRoot cpu).join "cpuidle"
  rejectSymlink root
  let items ← ioResult "reading cpuidle inventory" (← ask (.readDir root))
  let scan ← inventoryItems cpu root items ⟨0, 0, []⟩
  if scan.entries.isEmpty ∨ scan.pollCount ≠ 1 ∨ scan.c1Count ≠ 1 then
    throw (.preflight s!"CPU {cpu} must expose exact POLL and C1 cpuidle states")
  else
    return scan.entries.insertionSort fun a b => a.state ≤ b.state

def inventory (sysfsRoot : PathBuf) : List ℕ → Bench (List IdleEntry)
  | [] => return []
  | cpu :: rest => do
    let cpuEntries ← inventoryCpu sysfsRoot cpu
    let entries ← inventory sysfsRoot rest
    return cpuEntries ++ entries

/-- The fields that `validate_inventory` compares. -/
def IdleEntry.sameState (left right : IdleEntry) : Bool :=
  left.cpu = right.cpu && left.state = right.state && left.name = right.name &&
    left.disablePath = right.disablePath

def validateInventory (sysfsRoot : PathBuf) (recorded : List IdleEntry) : Bench Unit := do
  let cpus := dedup (sortUnstable (recorded.map IdleEntry.cpu))
  let current ← inventory sysfsRoot cpus
  if current.length ≠ recorded.length ∨
      (current.zip recorded).any (fun pair => !pair.1.sameState pair.2) then
    throw (.state "current cpuidle inventory differs from the journal")
  else
    return ()

def applyEntries : List IdleEntry → Bench Unit
  | [] => return ()
  | entry :: rest => do
    let current ← readBit entry.disablePath
    if current ≠ entry.original then
      throw (.state s!"cpuidle value changed before apply: {entry.disablePath.display}")
    else
      writeBit entry.disablePath entry.desired
      applyEntries rest

def apply (sysfsRoot : PathBuf) (entries : List IdleEntry) : Bench Unit := do
  validateInventory sysfsRoot entries
  applyEntries entries

/-- Record a conflict found at an entry and report it. -/
def restoreConflict (operationId : String) (journal : Journal) (entry : IdleEntry)
    (expected actual : String) : Bench Unit := do
  let journal ← journal.transition .restoreConflict (← actor)
  storeJournal codec operationId journal
  throw (.restoreConflict entry.disablePath expected actual)

/-- The first pass: every current value is one of the two that the operation knows. -/
def restoreCheck (operationId : String) (journal : Journal) : List IdleEntry → Bench Unit
  | [] => return ()
  | entry :: rest => do
    let current ← readBit entry.disablePath
    if current ≠ entry.original ∧ current ≠ entry.desired then
      restoreConflict codec operationId journal entry s!"{entry.original} or {entry.desired}" current
    else
      restoreCheck operationId journal rest

/-- The second pass: put back what the operation changed. -/
def restoreWrite (operationId : String) (journal : Journal) : List IdleEntry → Bench Unit
  | [] => return ()
  | entry :: rest => do
    let current ← readBit entry.disablePath
    if current ≠ entry.original ∧ current ≠ entry.desired then
      restoreConflict codec operationId journal entry s!"{entry.original} or {entry.desired}" current
    else if current = entry.desired ∧ current ≠ entry.original then
      writeBit entry.disablePath entry.original
      restoreWrite operationId journal rest
    else
      restoreWrite operationId journal rest

/-- The final pass: everything is back. -/
def restoreVerify (operationId : String) (journal : Journal) : List IdleEntry → Bench Unit
  | [] => return ()
  | entry :: rest => do
    let actual ← readBit entry.disablePath
    if actual ≠ entry.original then
      restoreConflict codec operationId journal entry entry.original actual
    else
      restoreVerify operationId journal rest

def restore (sysfsRoot : PathBuf) (operationId : String) (journal : Journal) : Bench Unit := do
  validateInventory sysfsRoot journal.entries
  restoreCheck codec operationId journal journal.entries
  let journal ← journal.transition .restoring (← actor)
  storeJournal codec operationId journal
  restoreWrite codec operationId journal journal.entries
  validateInventory sysfsRoot journal.entries
  restoreVerify codec operationId journal journal.entries
  let journal ← journal.transition .restored (← actor)
  storeJournal codec operationId journal

end Snoozer.Benchctl
