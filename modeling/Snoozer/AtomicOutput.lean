import Snoozer.FileSystem
import Snoozer.ProgramPool

/-! `AtomicOutput` of `benches/support/output.rs`, from its creation to its drop, with the buffer of
`std::io::BufWriter` that it writes through. What its owner does with it between is a strategy that
sees every result, and each value keeps a protocol of its calls to the file system. -/
namespace Snoozer.WakeLatency
open Interactive Interactive.Fallible Interactive.Prog Interactive.Protocol
open Benchctl (PathBuf Bytes)

/-- The path `.`. -/
def currentDir : PathBuf := ⟨false, ["."]⟩

def outputParent (path : PathBuf) : PathBuf :=
  (path.parent.filter fun parent => !parent.isEmpty).getD currentDir

/-- A file lies under its name in the directory of `output_parent`. -/
theorem location_outputParent {path : PathBuf} {name : String} (hname : path.fileName = some name) :
    path.location = name :: (outputParent path).location := by
  have hne : path.components ≠ [] := by
    intro hnil
    rw [PathBuf.fileName, hnil] at hname
    cases hname
  have hparent : path.parent = some { path with components := path.components.dropLast } :=
    if_neg hne
  rw [location_eq_cons hparent hname, outputParent, hparent]
  by_cases hempty : ({ path with components := path.components.dropLast } : PathBuf).isEmpty = true
  · -- The empty parent of a bare name leads to the same directory as `.`.
    rw [Option.filter_some_neg (by simpa using hempty), Option.getD_none]
    have hcomponents : path.components.dropLast = [] := by
      simp only [PathBuf.isEmpty, Bool.and_eq_true, List.isEmpty_iff] at hempty
      exact hempty.2
    simp [PathBuf.location, hcomponents, currentDir]
  · rw [Option.filter_some_pos (by simpa using hempty), Option.getD_some]

/-- The `?` of an answer. -/
def orThrow {α : Type} : Except FsError α → FsFallible FsError α
  | .ok a => pure a
  | .error e => throw e

/-- From the current directory on: a directory that is gone does not come back, so that the loop, which
asks for it again and again, ends only with an error. -/
def awaitCurrentDir : FsFallible FsError Unit :=
  Fallible.iterate do
    match ← ask (FsOp.metadata currentDir) with
    | .ok () => return some ()
    | .error .notFound => return none
    | .error e => throw e

/-- The directories that are missing, from the parent up. -/
def missingDirectories (absolute : Bool) : List String → FsFallible FsError (List PathBuf)
  | [] => do
    if absolute then
      match ← ask (FsOp.metadata (pathAt absolute [])) with
      | .ok () => return []
      | .error .notFound =>
        awaitCurrentDir
        return [pathAt absolute []]
      | .error e => throw e
    else
      awaitCurrentDir
      return []
  | name :: rest => do
    match ← ask (FsOp.metadata (pathAt absolute (name :: rest))) with
    | .ok () => return []
    | .error .notFound =>
      let missing ← missingDirectories absolute rest
      return pathAt absolute (name :: rest) :: missing
    | .error e => throw e

def syncParents : List PathBuf → FsFallible FsError Unit
  | [] => pure ()
  | directory :: missing => do
    let handle ← orThrow (← ask (FsOp.openDir (outputParent directory)))
    orThrow (← ask (FsOp.syncDir handle))
    syncParents missing

def createParentDurably (parent : PathBuf) : FsFallible FsError Unit := do
  let missing ← missingDirectories parent.absolute parent.components.reverse
  createDirAll parent
  syncParents missing

structure BufWriter where
  inode : ℕ
  buffer : Bytes
  deriving DecidableEq

/-- The default capacity. -/
def bufferCapacity : ℕ := 8192

/-- One round of `flush_buf`: a write that is interrupted is made again. -/
def writeRetried (inode : ℕ) (bytes : Bytes) : Prog FsOp FsAns (Except FsError ℕ) :=
  .loop (do
    match ← perform (FsOp.write inode bytes) with
    | .error .interrupted => return none
    | x => return some x) .ret

/-- `flush_buf`; what could not be written stays in the buffer. -/
def flushBuffer (inode : ℕ) (buffer : Bytes) : Prog FsOp FsAns (Except FsError Unit × Bytes) :=
  if buffer = [] then
    .ret (.ok (), [])
  else
    (writeRetried inode buffer).bind fun
      | .error e => .ret (.error e, buffer)
      | .ok 0 => .ret (.error .writeZero, buffer)
      | .ok (n + 1) => flushBuffer inode (buffer.drop (n + 1))
  termination_by buffer.length
  decreasing_by
    have hlength := List.length_pos_of_ne_nil ‹_›
    rw [List.length_drop]
    omega

namespace BufWriter

def spareCapacity (writer : BufWriter) : ℕ := bufferCapacity - writer.buffer.length

def push (writer : BufWriter) (bytes : Bytes) : BufWriter :=
  { writer with buffer := writer.buffer ++ bytes }

def flush (writer : BufWriter) : Prog FsOp FsAns (Except FsError Unit × BufWriter) :=
  (flushBuffer writer.inode writer.buffer).bind fun r => .ret (r.1, { writer with buffer := r.2 })

/-- A write that leaves no room in the buffer, once the buffer has been flushed if need be. -/
def writeDirect (writer : BufWriter) (bytes : Bytes) :
    Prog FsOp FsAns (Except FsError ℕ × BufWriter) :=
  if bufferCapacity ≤ bytes.length then
    (perform (FsOp.write writer.inode bytes)).bind fun x => .ret (x, writer)
  else
    .ret (.ok bytes.length, writer.push bytes)

def write (writer : BufWriter) (bytes : Bytes) : Prog FsOp FsAns (Except FsError ℕ × BufWriter) :=
  if bytes.length < writer.spareCapacity then
    .ret (.ok bytes.length, writer.push bytes)
  else if writer.spareCapacity < bytes.length then
    writer.flush.bind fun r =>
      match r.1 with
      | .error e => .ret (.error e, r.2)
      | .ok () => r.2.writeDirect bytes
  else
    writer.writeDirect bytes

end BufWriter

structure AtomicOutput where
  finalPath : PathBuf
  partialPath : PathBuf
  writer : BufWriter
  published : Bool

def maxPartialPathAttempts : ℕ := 1024

def partialOutputPath (finalPath : PathBuf) (processId partialId : ℕ) : Except FsError PathBuf :=
  match finalPath.fileName with
  | none => .error (.other "benchmark output path must name a file")
  | some fileName =>
    .ok ((outputParent finalPath).join s!".{fileName}.partial-{processId}-{partialId}")

namespace AtomicOutput

/-- The attempts from `offset` on, as many as are `left`. -/
def reserve (finalPath : PathBuf) (processId firstId : ℕ) :
    (left offset : ℕ) → FsFallible FsError AtomicOutput
  | 0, _ => throw (.other "could not reserve a unique benchmark partial output path")
  | left + 1, offset => do
    let partialPath ← orThrow (partialOutputPath finalPath processId ((firstId + offset) % 2 ^ 64))
    match ← ask (FsOp.createNew partialPath) with
    | .ok inode => return ⟨finalPath, partialPath, ⟨inode, []⟩, false⟩
    | .error .alreadyExists => reserve finalPath processId firstId left (offset + 1)
    | .error e => throw e

/-- `firstId` is what `NEXT_PARTIAL_ID` holds. -/
def create (finalPath : PathBuf) (processId firstId : ℕ) : FsFallible FsError AtomicOutput := do
  createParentDurably (outputParent finalPath)
  reserve finalPath processId firstId maxPartialPathAttempts 0

def write (output : AtomicOutput) (bytes : Bytes) :
    Prog FsOp FsAns (Except FsError ℕ × AtomicOutput) :=
  (output.writer.write bytes).bind fun r => .ret (r.1, { output with writer := r.2 })

def flush (output : AtomicOutput) : Prog FsOp FsAns (Except FsError Unit × AtomicOutput) :=
  output.writer.flush.bind fun r => .ret (r.1, { output with writer := r.2 })

/-- The fields are dropped after the value, and the writer tries to flush once more. -/
def dropWriter (output : AtomicOutput) (kept : Bool) : Prog FsOp FsAns Bool :=
  (flushBuffer output.writer.inode output.writer.buffer).bind fun _ => .ret kept

/-- The partial file of a value that is not published is removed; true if that fails and the file is
reported. -/
def drop (output : AtomicOutput) : Prog FsOp FsAns Bool :=
  if output.published then
    output.dropWriter false
  else
    (perform (FsOp.removeFile output.partialPath)).bind fun
      | .ok () => output.dropWriter false
      | .error .notFound => output.dropWriter false
      | .error _ => output.dropWriter true

/-- After the rename. -/
def syncPublished (output : AtomicOutput) : FsFallible FsError Unit := do
  let directory ← orThrow (← ask (FsOp.openDir (outputParent output.finalPath)))
  orThrow (← ask (FsOp.syncDir directory))

/-- What `finish` does once the writer is flushed. -/
def publish (output : AtomicOutput) : Prog FsOp FsAns (Except FsError Unit × AtomicOutput) :=
  (perform (FsOp.syncFile output.writer.inode)).bind fun
    | .error e => .ret (.error e, output)
    | .ok () =>
      (perform (FsOp.rename output.partialPath output.finalPath)).bind fun
        | .error e => .ret (.error e, output)
        | .ok () =>
          output.syncPublished.run.bind fun x => .ret (x, { output with published := true })

def publishFlushed (r : Except FsError Unit × AtomicOutput) :
    Prog FsOp FsAns (Except FsError Unit × AtomicOutput) :=
  match r.1 with
  | .error e => .ret (.error e, r.2)
  | .ok () => r.2.publish

/-- What `finish` returns, and the value as it is dropped then. -/
def finish (output : AtomicOutput) : Prog FsOp FsAns (Except FsError Unit × AtomicOutput) :=
  output.flush.bind publishFlushed

end AtomicOutput

/-- What the owner of a value does with it, after each result. -/
inductive OutputUse where
  | drop
  | finish
  | write (bytes : Bytes) (next : Except FsError ℕ → OutputUse)
  | flush (next : Except FsError Unit → OutputUse)

/-- What is left to say about a value that has been dropped: the file it had reserved and where, the
result of `finish` if that was called, its flag, whether its partial file could not be removed, and
all bytes that its writes have accepted. -/
structure OutputEnd where
  inode : ℕ
  partialPath : PathBuf
  result : Option (Except FsError Unit)
  published : Bool
  kept : Bool
  accepted : Bytes

/-- The bytes that a write has accepted. -/
def acceptedBytes (bytes : Bytes) : Except FsError ℕ → Bytes
  | .ok n => bytes.take n
  | .error _ => []

def AtomicOutput.leave (output : AtomicOutput) (result : Option (Except FsError Unit))
    (accepted : Bytes) (kept : Bool) : OutputEnd :=
  ⟨output.writer.inode, output.partialPath, result, output.published, kept, accepted⟩

def AtomicOutput.ends (output : AtomicOutput) (result : Option (Except FsError Unit))
    (accepted : Bytes) : Prog FsOp FsAns OutputEnd :=
  output.drop.bind fun kept => .ret (output.leave result accepted kept)

def OutputUse.run : OutputUse → AtomicOutput → Bytes → Prog FsOp FsAns OutputEnd
  | .drop, output, accepted => output.ends none accepted
  | .finish, output, accepted => output.finish.bind fun r => r.2.ends (some r.1) accepted
  | .write bytes next, output, accepted =>
    (output.write bytes).bind fun r => (next r.1).run r.2 (accepted ++ acceptedBytes bytes r.1)
  | .flush next, output, accepted => output.flush.bind fun r => (next r.1).run r.2 accepted

/-- A value as its owner asks for it. -/
structure OutputRequest where
  finalPath : PathBuf
  processId : ℕ
  firstId : ℕ
  use : OutputUse

def OutputRequest.session (request : OutputRequest) : FsFallible FsError OutputEnd := do
  let output ← AtomicOutput.create request.finalPath request.processId request.firstId
  ExceptT.lift (request.use.run output [])

/-- The path may be reserved for the value. -/
def OutputRequest.IsPartial (request : OutputRequest) (path : PathBuf) : Prop :=
  ∃ partialId, partialOutputPath request.finalPath request.processId partialId = .ok path

end Snoozer.WakeLatency
