import Snoozer.FallibleProgram
import Mathlib.Data.Nat.Notation
import Mathlib.Data.List.Sort
import Mathlib.Algebra.Group.Nat.Defs

/-! The data of `tools/benchctl`: errors, journals, receipts and requests, and the
calls through which its coordinator touches the host. JSON and SHA-256 come from
libraries and are parameters. -/
namespace Snoozer.Benchctl
open Interactive

/-- A path by its components, as `Path` compares them. -/
structure PathBuf where
  absolute : Bool
  components : List String
  deriving DecidableEq, Repr

namespace PathBuf

/-- Joining one relative component. -/
def join (path : PathBuf) (name : String) : PathBuf :=
  { path with components := path.components ++ [name] }

def startsWith (path base : PathBuf) : Bool :=
  path.absolute == base.absolute && base.components.isPrefixOf path.components

def display (path : PathBuf) : String :=
  (if path.absolute then "/" else "") ++ String.intercalate "/" path.components

end PathBuf

abbrev Bytes := List UInt8

/-- `std::io::Error`, by what it prints. -/
structure IoError where
  message : String
  deriving DecidableEq, Repr

inductive BenchError where
  | usage (detail : String)
  | preflight (detail : String)
  | requestConflict (operationId : String)
  | recoveryRequired (operationId : String)
  | restoreConflict (path : PathBuf) (expected actual : String)
  | state (detail : String)
  | workload (detail : String)
  | io (operation : String) (source : IoError)
  | json (operation : String) (source : String)
  deriving DecidableEq, Repr

def BenchError.display : BenchError → String
  | usage detail => s!"invalid request: {detail}"
  | preflight detail => s!"preflight rejected the operation: {detail}"
  | requestConflict operationId => s!"operation {operationId} conflicts with its recorded request"
  | recoveryRequired operationId => s!"operation {operationId} needs explicit recovery"
  | restoreConflict path expected actual =>
    s!"cpuidle restore conflict at {path.display}: expected current {expected}, found {actual}"
  | state detail => s!"operation state is unavailable: {detail}"
  | workload detail => s!"workload failed: {detail}"
  | io operation source => s!"I/O during {operation}: {source.message}"
  | json operation source => s!"JSON during {operation}: {source}"

structure Actor where
  uid : ℕ
  gid : ℕ
  deriving DecidableEq, Repr

structure Request where
  receipt : PathBuf
  acceptedReceipt : PathBuf
  receiptDigest : String
  acceptedExecutable : PathBuf
  executableDigest : String
  cpus : List ℕ
  timeoutSeconds : ℕ
  workload : List String
  workloadActor : Actor
  deriving DecidableEq, Repr

structure IdleEntry where
  cpu : ℕ
  state : ℕ
  name : String
  disablePath : PathBuf
  original : String
  desired : String
  deriving DecidableEq, Repr

inductive Stage where
  | prepared | applied | workloadStarted | workloadFinished | draining | restoring | restored
  | recoverable | restoreConflict
  deriving DecidableEq, Repr

inductive TerminalOutcome where
  | success
  | failed (status : String)
  | timedOut
  | cancelled
  deriving DecidableEq, Repr

structure Transition where
  stage : Stage
  coordinator : Actor
  unixMillis : ℕ
  deriving DecidableEq, Repr

structure Journal where
  version : String
  operationId : String
  request : Request
  requestHash : String
  coordinator : Actor
  bootId : String
  entries : List IdleEntry
  outcome : Option TerminalOutcome
  transitions : List Transition
  deriving DecidableEq, Repr

structure BuildReceipt where
  version : String
  buildId : String
  manifestPath : PathBuf
  repository : PathBuf
  sourceCommit : String
  sourceClean : Bool
  lockfilePath : PathBuf
  lockfileSha256 : String
  packageId : String
  bench : String
  features : List String
  profile : String
  rustc : String
  rustupToolchain : String
  targetTriple : String
  benchctlVersion : String
  benchctlExecutableSha256 : String
  executable : PathBuf
  executableSha256 : String
  builtUnixMillis : ℕ
  deriving DecidableEq, Repr

/-- What the libraries do: `serde_json` on the types that are hashed or read back,
and `sha2` as a hex digest. -/
structure Codec where
  hexDigest : Bytes → String
  requestBytes : Request → Bytes
  parseReceipt : Bytes → Except String BuildReceipt
  identityBytes : BuildReceipt → Bytes
  packageVersion : String

def Request.digest (codec : Codec) (request : Request) : String :=
  codec.hexDigest (codec.requestBytes request)

def journalVersion : String := "benchctl-journal-v1"

namespace Journal

def stage (journal : Journal) : Stage :=
  (journal.transitions.getLast?.map Transition.stage).getD .prepared

def push (journal : Journal) (stage : Stage) (actor : Actor) (unixMillis : ℕ) : Journal :=
  { journal with transitions := journal.transitions ++ [⟨stage, actor, unixMillis⟩] }

def validate (codec : Codec) (journal : Journal) : Except BenchError Unit :=
  if journal.version ≠ journalVersion then
    .error (.state s!"unsupported journal version: {journal.version}")
  else if journal.requestHash ≠ journal.request.digest codec then
    .error (.state "journal request hash does not match its request")
  else if journal.transitions.isEmpty then
    .error (.state "journal has no transition")
  else
    .ok ()

theorem validate_eq_ok {codec : Codec} {journal : Journal} : journal.validate codec = .ok () ↔
    journal.version = journalVersion ∧ journal.requestHash = journal.request.digest codec ∧
      journal.transitions ≠ [] := by
  unfold validate
  split
  · simp_all
  · split
    · simp_all
    · split <;> simp_all

theorem validate_push {codec : Codec} {journal : Journal} (h : journal.validate codec = .ok ())
    (stage : Stage) (actor : Actor) (unixMillis : ℕ) :
    (journal.push stage actor unixMillis).validate codec = .ok () := by
  obtain ⟨hversion, hhash, _⟩ := validate_eq_ok.mp h
  exact validate_eq_ok.mpr ⟨hversion, hhash, by simp [push]⟩

@[simp] theorem push_entries (journal : Journal) (stage : Stage) (actor : Actor) (millis : ℕ) :
    (journal.push stage actor millis).entries = journal.entries := rfl

@[simp] theorem push_outcome (journal : Journal) (stage : Stage) (actor : Actor) (millis : ℕ) :
    (journal.push stage actor millis).outcome = journal.outcome := rfl

@[simp] theorem push_stage (journal : Journal) (stage : Stage) (actor : Actor) (millis : ℕ) :
    (journal.push stage actor millis).stage = stage := by
  simp [Journal.stage, push]

end Journal

/-- The characters `journal_path` admits, on a non-empty id. -/
def validOperationId (operationId : String) : Bool :=
  !operationId.isEmpty &&
    operationId.toList.all fun c => (c.isAlphanum && c.val < 128) || c = '-' || c = '_'

inductive Outcome where
  | success
  | failed (status : String)
  | timedOut
  | cancelled
  deriving DecidableEq, Repr

structure WorkloadStatus where
  success : Bool
  code : Option Int
  signal : Option Int
  deriving DecidableEq, Repr

structure CoordinateRequest where
  operationId : String
  receipt : PathBuf
  executable : PathBuf
  workload : List String
  uid : ℕ
  gid : ℕ
  timeout : ℕ
  clientWatch : Bool
  productionControl : Bool
  deriving DecidableEq, Repr

structure DirectoryMetadata where
  isSymlink : Bool
  isDir : Bool
  uid : ℕ
  mode : ℕ
  deriving DecidableEq, Repr

/-- Calls of the coordinator. Journals are addressed by operation id; `listJournals`
returns the ids of the `*.json` entries of the state directory. -/
inductive HostOp where
  | createStateRoot
  | stateRootExists
  | secureStateRoot (mode : ℕ)
  | stateRootMetadata
  | lockFor (wait : Bool)
  | requireInactive
  | actor
  | invokingActor
  | nowMillis
  | newOperationId
  | bootId
  | readFile (path : PathBuf)
  | atomicWrite (path : PathBuf) (bytes : Bytes)
  | setPermissions (path : PathBuf) (mode : ℕ)
  | currentExe
  | verifyCheckout (receipt : BuildReceipt) (actor : Actor)
  | clientWatch (pid : Option ℕ)
  | pauseAfterExecutableSnapshot
  | journalExists (operationId : String)
  | readJournal (operationId : String)
  | writeJournal (operationId : String) (journal : Journal)
  | listJournals
  | symlinkMetadata (path : PathBuf)
  | readDir (path : PathBuf)
  | readToString (path : PathBuf)
  | write (path : PathBuf) (contents : String)
  | coordinate (request : CoordinateRequest)
  | readOutcome (operationId : String)
  | readStatus (operationId : String)
  | removeRuntime (operationId : String)
  deriving DecidableEq

/-- `readOutcome` and `readStatus` answer `none` where the file does not exist. -/
abbrev HostAns : HostOp → Type
  | .createStateRoot => Except IoError Unit
  | .stateRootExists => Bool
  | .secureStateRoot _ => Except IoError Unit
  | .stateRootMetadata => Except IoError DirectoryMetadata
  | .lockFor _ => Except BenchError Unit
  | .requireInactive => Except BenchError Unit
  | .actor => Actor
  | .invokingActor => Except BenchError Actor
  | .nowMillis => ℕ
  | .newOperationId => String
  | .bootId => Except IoError String
  | .readFile _ => Except IoError Bytes
  | .atomicWrite _ _ => Except BenchError Unit
  | .setPermissions _ _ => Except IoError Unit
  | .currentExe => Except IoError PathBuf
  | .verifyCheckout _ _ => Except BenchError Unit
  | .clientWatch _ => Except BenchError Bool
  | .pauseAfterExecutableSnapshot => Except BenchError Unit
  | .journalExists _ => Bool
  | .readJournal _ => Except BenchError Journal
  | .writeJournal _ _ => Except BenchError Unit
  | .listJournals => Except IoError (List (Except IoError String))
  | .symlinkMetadata _ => Except IoError Bool
  | .readDir _ => Except IoError (List (Except IoError String))
  | .readToString _ => Except IoError String
  | .write _ _ => Except IoError Unit
  | .coordinate _ => Except BenchError Outcome
  | .readOutcome _ => Except BenchError (Option Outcome)
  | .readStatus _ => Except BenchError (Option WorkloadStatus)
  | .removeRuntime _ => Except IoError Unit

abbrev Bench := Fallible HostOp HostAns BenchError

def ofExcept {α : Type} (result : Except BenchError α) : Bench α := ExceptT.mk (Prog.ret result)

/-- `.map_err(|error| BenchError::io(operation, error))`. -/
def ioResult {α : Type} (operation : String) (result : Except IoError α) : Bench α :=
  ofExcept (result.mapError (BenchError.io operation))

theorem ioResult_ok_bind {α β : Type} (operation : String) (a : α) (g : α → Bench β) :
    (ioResult operation (.ok a) >>= g) = g a := rfl

/-- Unicode `White_Space`. -/
def isWhiteSpace (c : Char) : Bool :=
  (0x9 ≤ c.val && c.val ≤ 0xd) || c.val = 0x20 || c.val = 0x85 || c.val = 0xa0 || c.val = 0x1680 ||
    (0x2000 ≤ c.val && c.val ≤ 0x200a) || c.val = 0x2028 || c.val = 0x2029 || c.val = 0x202f ||
    c.val = 0x205f || c.val = 0x3000

def trim (text : String) : String :=
  String.ofList ((text.toList.dropWhile isWhiteSpace).reverse.dropWhile isWhiteSpace).reverse

/-- `str::parse::<usize>`: an optional plus sign and decimal digits, without overflow. -/
def parseUsize (text : String) : Option ℕ :=
  let digits := match text.toList with
    | '+' :: rest => rest
    | rest => rest
  if digits.isEmpty || !digits.all Char.isDigit then none
  else
    let value := digits.foldl (fun n c => 10 * n + (c.toNat - '0'.toNat)) 0
    if value < 2 ^ 64 then some value else none

def stripPrefix (pre text : String) : Option String :=
  if pre.toList.isPrefixOf text.toList then some (String.ofList (text.toList.drop pre.length))
  else none

/-- `Vec::dedup`: drop an element that equals the one kept before it. -/
def dedup : List ℕ → List ℕ
  | [] => []
  | a :: rest => a :: dedupFrom a rest
where
  dedupFrom (last : ℕ) : List ℕ → List ℕ
    | [] => []
    | a :: rest => if a = last then dedupFrom last rest else a :: dedupFrom a rest

def sortUnstable (values : List ℕ) : List ℕ := values.insertionSort (· ≤ ·)

end Snoozer.Benchctl
