import Snoozer.AnsweredRuns
import Snoozer.BuildGuardian
import Snoozer.CpuIdleRun
import Snoozer.CpuList
import Snoozer.DependencyGraph
import Snoozer.FileSystem
import Snoozer.ReexecArguments

/-! `cargo_bench` of `tools/benchctl/src/build.rs`, which builds a benchmark and stores its receipt,
and the checks of `receipt.rs` that compare a receipt with a checkout. What Cargo, Git and rustc
answer is arbitrary; a guarded Cargo invocation is one call. -/
namespace Snoozer.Benchctl
open Interactive Interactive.Fallible

/-! ### Cargo's answers -/

inductive TargetKind where
  | bench
  | other (name : String)
  deriving DecidableEq, Repr

/-- A target with its kinds. -/
structure BuildTarget extends Target where
  kind : List TargetKind
  deriving DecidableEq, Repr

structure BuildPackage where
  id : PackageId
  name : String
  source : Option String
  manifestPath : PathBuf
  targets : List BuildTarget
  deriving DecidableEq, Repr

def BuildPackage.toPackage (package : BuildPackage) : Package where
  id := package.id
  name := package.name
  source := package.source
  manifestPath := package.manifestPath
  targets := package.targets.map BuildTarget.toTarget

structure BuildMetadata where
  workspaceRoot : PathBuf
  packages : List BuildPackage
  resolve : Option Resolve
  deriving DecidableEq, Repr

def BuildMetadata.toMetadata (metadata : BuildMetadata) : Metadata :=
  ⟨metadata.packages.map BuildPackage.toPackage, metadata.resolve⟩

structure Artifact where
  packageId : PackageId
  target : BuildTarget
  executable : Option PathBuf
  deriving DecidableEq, Repr

inductive CargoMessage where
  | compilerArtifact (artifact : Artifact)
  | other
  deriving DecidableEq, Repr

/-! ### Calls -/

/-- What `Command::output` hands back; there is no text where it is not UTF-8. -/
structure CommandOutput where
  success : Bool
  status : String
  stdout : Option String
  deriving DecidableEq, Repr

/-- A process may be started as another user and group. Of a path that exists, nothing else is
asked; times are in nanoseconds. -/
inductive CargoOp where
  | varsOs
  | varOs (name : String)
  | canonicalize (path : PathBuf)
  | pathExists (path : PathBuf)
  | readToString (path : PathBuf)
  | readFile (path : PathBuf)
  | geteuid
  | output (user : Option (ℕ × ℕ)) (program : String) (arguments : List String)
  | registerSignal (name : String)
  | now
  | namedTempFile
  | guardedCargo (repository stdout : PathBuf) (arguments : List String) (timeout : ℕ)
      (environment : List (String × String))
  | reopen (path : PathBuf)
  | metadataFrom (path : PathBuf)
  | messagesFrom (path : PathBuf)
  | checkout
  | currentExe
  | nowMillis
  | atomicWrite (path : PathBuf) (bytes : Bytes)

/-- The answers; of the environment only the names, in the order in which it lists them. -/
abbrev CargoAns : CargoOp → Type
  | .varsOs => List String
  | .varOs _ => Option String
  | .canonicalize _ => Except IoError PathBuf
  | .pathExists _ => Bool
  | .readToString _ => Except IoError String
  | .readFile _ => Except IoError Bytes
  | .geteuid => ℕ
  | .output _ _ _ => Except IoError CommandOutput
  | .registerSignal _ => Except IoError Unit
  | .now => ℕ
  | .namedTempFile => Except IoError PathBuf
  | .guardedCargo _ _ _ _ _ => Except BenchError BuildStatus
  | .reopen _ => Except IoError Unit
  | .metadataFrom _ => Except String BuildMetadata
  | .messagesFrom _ => List (Except String CargoMessage)
  | .checkout => Checkout
  | .currentExe => Except IoError PathBuf
  | .nowMillis => ℕ
  | .atomicWrite _ _ => Except BenchError Unit

abbrev Cargo := Fallible CargoOp CargoAns BenchError

/-- `.map_err(|error| BenchError::io(operation, error))` on the answer of a call. -/
def orIo {α : Type} (operation : String) (result : Except IoError α) : Cargo α :=
  fromExcept (result.mapError (BenchError.io operation))

def varOs (name : String) : Cargo (Option String) := ask (CargoOp.varOs name)

/-! ### Text -/

def hasPrefix (pre text : String) : Bool := pre.toList.isPrefixOf text.toList

def hasSuffix (suf text : String) : Bool := suf.toList.isSuffixOf text.toList

/-- A line without the carriage return before its end; its characters are in reverse. -/
def endLine : List Char → String
  | '\r' :: rest => String.ofList rest.reverse
  | line => String.ofList line.reverse

/-- `str::lines`; `line` is what stands on the current line so far, in reverse. -/
def linesFrom (line : List Char) : List Char → List String
  | [] => if line = [] then [] else [String.ofList line.reverse]
  | c :: rest => if c = '\n' then endLine line :: linesFrom [] rest else linesFrom (c :: line) rest

def lines (text : String) : List String := linesFrom [] text.toList

/-- `trim_matches` with one character. -/
def trimMatches (c : Char) (text : String) : String :=
  String.ofList
    ((text.toList.dropWhile (· = c)).reverse.dropWhile (· = c)).reverse

/-! ### The environment -/

def buildAffectingEnvironment : List String :=
  ["RUSTC", "RUSTFLAGS", "CARGO_ENCODED_RUSTFLAGS", "RUSTC_WRAPPER", "RUSTC_WORKSPACE_WRAPPER",
    "RUSTC_BOOTSTRAP", "CARGO_INCREMENTAL", "CARGO_BUILD_TARGET", "CARGO_BUILD_RUSTC",
    "CARGO_BUILD_RUSTFLAGS", "CARGO_BUILD_RUSTC_WRAPPER", "CARGO_BUILD_RUSTC_WORKSPACE_WRAPPER"]

/-- `fixed || dynamic_target || dynamic_profile`. -/
def affectsBuild (name : String) : Bool :=
  buildAffectingEnvironment.contains name ||
    (hasPrefix "CARGO_TARGET_" name && (hasSuffix "_RUSTFLAGS" name || hasSuffix "_LINKER" name)) ||
    (hasPrefix "CARGO_PROFILE_BENCH_" name || hasPrefix "CARGO_PROFILE_RELEASE_" name)

def rejectNames : List String → Except BenchError Unit
  | [] => .ok ()
  | name :: rest =>
    if affectsBuild name then
      .error (.preflight s!"build-affecting environment override is rejected: {name}")
    else rejectNames rest

def rejectEnvironmentOverrides : Cargo Unit := do
  let names ← ask .varsOs
  fromExcept (rejectNames names)

/-! ### Commands -/

def commandStdout (program : String) (arguments : List String) (operation : String) :
    Cargo String := do
  let output ← orIo operation (← ask (.output none program arguments))
  if !output.success then
    throw (.preflight s!"{operation} exited with {output.status}")
  else
    match output.stdout with
    | none => throw (.preflight s!"{operation} emitted non-UTF-8 output")
    | some text => return text

def gitStdout (repository : PathBuf) (arguments : List String) (operation : String) :
    Cargo String :=
  commandStdout "git" (["-C", repository.display] ++ arguments) operation

def revParseHead : List String := ["rev-parse", "--verify", "HEAD"]

def statusPorcelain : List String := ["status", "--porcelain", "--untracked-files=all"]

/-! ### Cargo's configuration and the toolchain -/

/-- The configuration files of the repository itself have to be tracked. -/
def verifyTrackedConfig (repository : PathBuf) : List String → Cargo Unit
  | [] => return ()
  | name :: rest => do
    if ← ask (.pathExists ((repository.join ".cargo").join name)) then
      let output ← orIo "checking repository Cargo config"
        (← ask (.output none "git"
          ["-C", repository.display, "ls-files", "--error-unmatch", ".cargo/" ++ name]))
      if !output.success then
        throw (.preflight ("repository Cargo config is not tracked: " ++
          ((repository.join ".cargo").join name).display))
      else
        verifyTrackedConfig repository rest
    else
      verifyTrackedConfig repository rest

def configNames : List String := ["config", "config.toml"]

def rejectConfigNames (directory : PathBuf) : List String → Cargo Unit
  | [] => return ()
  | name :: rest => do
    if ← ask (.pathExists (directory.join name)) then
      throw (.preflight
        s!"Cargo config outside the tracked repository is rejected: {(directory.join name).display}")
    else
      rejectConfigNames directory rest

def rejectConfigFiles (directory : PathBuf) : Cargo Unit := rejectConfigNames directory configNames

/-- The directories above a path, from its parent up. -/
def ancestors (path : PathBuf) : List PathBuf :=
  (List.range path.components.length).reverse.map fun n =>
    { path with components := path.components.take n }

/-- The loop over `ancestor`. -/
def rejectAncestors : List PathBuf → Cargo Unit
  | [] => return ()
  | directory :: rest => do
    rejectConfigFiles (directory.join ".cargo")
    rejectAncestors rest

def verifyCargoConfiguration (repository : PathBuf) : Cargo Unit := do
  verifyTrackedConfig repository configNames
  match ← varOs "HOME" with
  | none => throw (.preflight "HOME is required")
  | some home => do
    let defaultCargoHome := (PathBuf.ofOsStr home).join ".cargo"
    let configured ← varOs "CARGO_HOME"
    if (configured.map PathBuf.ofOsStr).any (· ≠ defaultCargoHome) then
      throw (.preflight "non-default CARGO_HOME is rejected")
    else
      rejectConfigFiles defaultCargoHome
      rejectAncestors (ancestors repository)

/-- What a line of the toolchain file sets the channel to. -/
def channelOf (line : String) : Option String :=
  (WakeLatency.splitOnce '=' line.toList).bind fun parts =>
    if trim (String.ofList parts.1) = "channel" then
      some (trimMatches '"' (trim (String.ofList parts.2)))
    else none

def pinnedToolchain (repository : PathBuf) : Cargo String := do
  let contents ← orIo "reading pinned toolchain"
    (← ask (.readToString (repository.join "rust-toolchain.toml")))
  match (lines contents).filterMap channelOf with
  | [channel] => return channel
  | _ => throw (.preflight "rust-toolchain.toml must contain exactly one channel")

def validateToolchainOverride (channel : String) : Cargo String := do
  match ← varOs "RUSTUP_TOOLCHAIN" with
  | none => return "repository-toolchain-file"
  | some value =>
    if value ≠ channel ∧ hasPrefix (channel ++ "-") value = false then
      throw (.preflight s!"RUSTUP_TOOLCHAIN does not match pinned {channel}")
    else
      return value

/-! ### Calls of the build -/

def installBuildSignalHandlers : List String → Cargo Unit
  | [] => return ()
  | signal :: rest => do
    orIo "installing build cancellation handler" (← ask (.registerSignal signal))
    installBuildSignalHandlers rest

def remainingBuildTime (started timeout : ℕ) : Cargo ℕ := do
  let elapsed := (← ask .now) - started
  if elapsed ≤ timeout then
    return timeout - elapsed
  else
    throw (.preflight "Cargo build timeout elapsed")

def requireTrackedNow (repository path : PathBuf) (label : String) : Cargo Unit := do
  let checkout ← ask .checkout
  fromExcept (requireTracked checkout repository path label)

variable (codec : Codec)

def cargoFileDigest (path : PathBuf) (operation : String) : Cargo String := do
  let bytes ← orIo operation (← ask (.readFile path))
  return codec.hexDigest bytes

/-! ### The request and the receipt -/

structure BuildRequest where
  manifestPath : PathBuf
  bench : String
  features : List String
  receiptPath : PathBuf
  timeout : ℕ
  deriving DecidableEq, Repr

structure BuildProvenance where
  manifestPath : PathBuf
  repository : PathBuf
  sourceCommit : String
  lockfilePath : PathBuf
  lockfileSha256 : String
  packageId : String
  rustc : String
  rustupToolchain : String
  targetTriple : String
  deriving DecidableEq, Repr

/-- `features.sort(); features.dedup();`. -/
def normalizeFeatures (features : List String) : List String :=
  (features.insertionSort (· ≤ ·)).destutter (· ≠ ·)

/-- The receipt without its id. -/
def unidentified (provenance : BuildProvenance) (bench : String) (features : List String)
    (executable : PathBuf) (executableSha256 benchctlSha256 : String) (millis : ℕ) :
    BuildReceipt where
  version := receiptVersion
  buildId := ""
  manifestPath := provenance.manifestPath
  repository := provenance.repository
  sourceCommit := provenance.sourceCommit
  sourceClean := true
  lockfilePath := provenance.lockfilePath
  lockfileSha256 := provenance.lockfileSha256
  packageId := provenance.packageId
  bench := bench
  features := normalizeFeatures features
  profile := "bench"
  rustc := provenance.rustc
  rustupToolchain := provenance.rustupToolchain
  targetTriple := provenance.targetTriple
  benchctlVersion := codec.packageVersion
  benchctlExecutableSha256 := benchctlSha256
  executable := executable
  executableSha256 := executableSha256
  builtUnixMillis := millis

def BuildReceipt.identified (receipt : BuildReceipt) : BuildReceipt :=
  { receipt with buildId := receipt.identityDigest codec }

def BuildReceipt.new (provenance : BuildProvenance) (bench : String) (features : List String)
    (executable : PathBuf) : Cargo BuildReceipt := do
  let executableSha256 ← cargoFileDigest codec executable "digesting receipt executable"
  let benchctl ← orIo "resolving Benchctl executable" (← ask .currentExe)
  let benchctlSha256 ← cargoFileDigest codec benchctl "digesting Benchctl executable"
  let millis ← ask .nowMillis
  return (unidentified codec provenance bench features executable executableSha256
    benchctlSha256 millis).identified codec

/-! ### The stages of `cargo_bench` -/

/-- The manifest and its repository. -/
structure Located where
  manifestPath : PathBuf
  repository : PathBuf
  deriving DecidableEq, Repr

def locate (request : BuildRequest) : Cargo Located := do
  let manifestPath ← orIo "canonicalizing Cargo manifest"
    (← ask (.canonicalize request.manifestPath))
  match manifestPath.parent with
  | none => throw (.preflight "Cargo manifest has no parent")
  | some manifestDirectory => do
    let toplevel ← gitStdout manifestDirectory ["rev-parse", "--show-toplevel"]
      "finding Git repository"
    let repository ← orIo "canonicalizing Git repository"
      (← ask (.canonicalize (PathBuf.ofOsStr (trim toplevel))))
    if !manifestPath.startsWith repository then
      throw (.preflight "Cargo manifest is outside its Git repository")
    else
      verifyCargoConfiguration repository
      requireTrackedNow repository manifestPath "Cargo manifest"
      return ⟨manifestPath, repository⟩

/-- The toolchain that the build will use. -/
structure ToolchainIdentity where
  rustupToolchain : String
  rustc : String
  targetTriple : String
  deriving DecidableEq, Repr

def identifyToolchain (repository : PathBuf) : Cargo ToolchainIdentity := do
  let toolchainChannel ← pinnedToolchain repository
  let rustupToolchain ← validateToolchainOverride toolchainChannel
  let rustcVersion ← commandStdout "rustc" ["--version"] "reading rustc version"
  if hasPrefix s!"rustc {toolchainChannel} " rustcVersion = false then
    throw (.preflight
      s!"rustc does not match pinned toolchain {toolchainChannel}: {trim rustcVersion}")
  else
    let rustc ← commandStdout "rustc" ["-vV"] "reading rustc identity"
    match (lines rustc).findSome? (stripPrefix "host: ") with
    | none => throw (.preflight "rustc -vV did not report a host")
    | some targetTriple => return ⟨rustupToolchain, rustc, targetTriple⟩

def featureArguments (features : List String) : List String :=
  if features = [] then [] else ["--features", String.intercalate "," features]

def metadataArguments (manifestPath : PathBuf) (targetTriple : String) (features : List String) :
    List String :=
  ["metadata", "--manifest-path", manifestPath.display, "--locked", "--filter-platform",
    targetTriple, "--format-version", "1"] ++ featureArguments features

def benchArguments (manifestPath : PathBuf) (bench targetTriple : String) (features : List String) :
    List String :=
  ["bench", "--manifest-path", manifestPath.display, "--bench", bench, "--no-run", "--locked",
    "--message-format=json", "--target", targetTriple] ++ featureArguments features

/-- When the build started, and Cargo's metadata. -/
structure Resolved where
  started : ℕ
  metadata : BuildMetadata
  deriving DecidableEq, Repr

def readMetadata (request : BuildRequest) (located : Located) (targetTriple : String) :
    Cargo Resolved := do
  installBuildSignalHandlers ["SIGHUP", "SIGINT", "SIGTERM"]
  let cargoStarted ← ask .now
  let metadataOutput ← orIo "creating Cargo metadata log" (← ask .namedTempFile)
  let remaining ← remainingBuildTime cargoStarted request.timeout
  let metadataStatus ← fromExcept (← ask (.guardedCargo located.repository metadataOutput
    (metadataArguments located.manifestPath targetTriple request.features) remaining []))
  if !metadataStatus.success then
    throw (.preflight s!"Cargo metadata exited with {metadataStatus.display}")
  else
    orIo "reading Cargo metadata" (← ask (.reopen metadataOutput))
    let parsed ← ask (.metadataFrom metadataOutput)
    let metadata ← fromExcept (Except.mapError (BenchError.json "reading Cargo metadata") parsed)
    return ⟨cargoStarted, metadata⟩

def BuildPackage.owns (package : BuildPackage) (bench : String) : Bool :=
  package.targets.any fun target => target.name = bench && target.kind.contains .bench

/-- The workspace and the package that owns the benchmark. -/
structure SelectedPackage where
  workspaceRoot : PathBuf
  package : BuildPackage
  deriving DecidableEq, Repr

def selectPackage (setOrder : SetOrder) (bench : String) (repository : PathBuf)
    (metadata : BuildMetadata) : Cargo SelectedPackage := do
  let workspaceRoot ← orIo "canonicalizing Cargo workspace root"
    (← ask (.canonicalize metadata.workspaceRoot))
  if !workspaceRoot.startsWith repository then
    throw (.preflight "Cargo workspace root is outside its Git repository")
  else
    requireTrackedNow repository (workspaceRoot.join "Cargo.toml") "workspace manifest"
    match metadata.packages.filter (BuildPackage.owns · bench) with
    | [selectedPackage] => do
      let selectedManifest ← orIo "canonicalizing selected package manifest"
        (← ask (.canonicalize selectedPackage.manifestPath))
      requireTrackedNow repository selectedManifest "selected package manifest"
      let checkout ← ask .checkout
      fromExcept (validateReachableLocalGraph checkout setOrder metadata.toMetadata
        selectedPackage.id repository)
      return ⟨workspaceRoot, selectedPackage⟩
    | selected => throw (.preflight
        s!"expected exactly one Cargo package owning bench {bench}, found {selected.length}")

/-- The source that is built. -/
structure Source where
  commit : String
  lockfile : PathBuf
  lockfileSha256 : String
  deriving DecidableEq, Repr

def recordSource (repository workspaceRoot : PathBuf) : Cargo Source := do
  let sourceCommit ← gitStdout repository revParseHead "reading source commit"
  let status ← gitStdout repository statusPorcelain "checking working tree"
  if status ≠ "" then
    throw (.preflight
      "official builds require a clean working tree, including untracked files")
  else
    requireTrackedNow repository (workspaceRoot.join "Cargo.lock") "Cargo lockfile"
    let lockfileSha256 ← cargoFileDigest codec (workspaceRoot.join "Cargo.lock")
      "digesting Cargo.lock"
    return ⟨trim sourceCommit, workspaceRoot.join "Cargo.lock", lockfileSha256⟩

def benchmarkEnvironment (repository : PathBuf) (sourceCommit : String)
    (toolchain : ToolchainIdentity) : List (String × String) :=
  [("SNOOZER_BENCHMARK_COMMIT", sourceCommit),
    ("SNOOZER_BENCHMARK_REPOSITORY", repository.display),
    ("SNOOZER_BENCHMARK_DIRTY", "false"),
    ("SNOOZER_BENCHMARK_RUSTUP_TOOLCHAIN", toolchain.rustupToolchain),
    ("SNOOZER_BENCHMARK_RUSTC", trim toolchain.rustc)]

/-- The executables of the benchmark, with the packages they come from. -/
def executables (bench : String) :
    List (Except String CargoMessage) → Except BenchError (List (PathBuf × String))
  | [] => .ok []
  | .error error :: _ => .error (.preflight s!"invalid Cargo JSON message: {error}")
  | .ok .other :: rest => executables bench rest
  | .ok (.compilerArtifact artifact) :: rest =>
    if artifact.target.name = bench && artifact.target.kind.contains .bench then
      match artifact.executable with
      | some executable => (executables bench rest).map ((executable, artifact.packageId.repr) :: ·)
      | none => executables bench rest
    else executables bench rest

def buildBench (request : BuildRequest) (located : Located) (toolchain : ToolchainIdentity)
    (started : ℕ) (packageId sourceCommit : String) : Cargo PathBuf := do
  let cargoMessages ← orIo "creating Cargo message log" (← ask .namedTempFile)
  let remaining ← remainingBuildTime started request.timeout
  let status ← fromExcept (← ask (.guardedCargo located.repository cargoMessages
    (benchArguments located.manifestPath request.bench toolchain.targetTriple request.features)
    remaining (benchmarkEnvironment located.repository sourceCommit toolchain)))
  if !status.success then
    throw (.workload s!"Cargo exited with {status.display}")
  else
    orIo "reading Cargo message log" (← ask (.reopen cargoMessages))
    let paths ← fromExcept (executables request.bench (← ask (.messagesFrom cargoMessages)))
    match paths with
    | [path] =>
      if path.2 ≠ packageId then
        throw (.preflight "Cargo artifact package differs from resolved benchmark package")
      else
        return path.1
    | _ => throw (.preflight
        s!"expected exactly one executable for bench {request.bench}, found {paths.length}")

def verifyCheckoutUnchanged (repository : PathBuf) (expectedCommit : String) (lockfile : PathBuf)
    (expectedLockfileDigest : String) : Cargo Unit := do
  let commit ← gitStdout repository revParseHead "rechecking source commit after Cargo build"
  if trim commit ≠ expectedCommit then
    throw (.preflight "source commit changed during Cargo build")
  else
    let status ← gitStdout repository statusPorcelain "rechecking working tree after Cargo build"
    if status ≠ "" then
      throw (.preflight "working tree changed during Cargo build")
    else
      let digest ← cargoFileDigest codec lockfile "rechecking Cargo.lock after build"
      if digest ≠ expectedLockfileDigest then
        throw (.preflight "Cargo.lock changed during Cargo build")
      else
        return ()

/-- Everything before the receipt is stored. -/
def prepareReceipt (setOrder : SetOrder) (request : BuildRequest) : Cargo BuildReceipt :=
  if request.bench.isEmpty || request.features.any String.isEmpty then
    throw (.usage "bench and features must not be empty")
  else do
    rejectEnvironmentOverrides
    let located ← locate request
    let toolchain ← identifyToolchain located.repository
    let resolved ← readMetadata request located toolchain.targetTriple
    let selected ← selectPackage setOrder request.bench located.repository resolved.metadata
    let source ← recordSource codec located.repository selected.workspaceRoot
    let executable ← buildBench request located toolchain resolved.started
      selected.package.id.repr source.commit
    let receipt ← BuildReceipt.new codec
      { manifestPath := located.manifestPath
        repository := located.repository
        sourceCommit := source.commit
        lockfilePath := source.lockfile
        lockfileSha256 := source.lockfileSha256
        packageId := selected.package.id.repr
        rustc := trim toolchain.rustc
        rustupToolchain := toolchain.rustupToolchain
        targetTriple := toolchain.targetTriple }
      request.bench request.features executable
    verifyCheckoutUnchanged codec receipt.repository receipt.sourceCommit receipt.lockfilePath
      receipt.lockfileSha256
    return receipt

/-- `serde_json::to_vec_pretty` on a receipt is `receiptBytes`. -/
def storeReceipt (receiptBytes : BuildReceipt → Bytes) (path : PathBuf) (receipt : BuildReceipt) :
    Cargo Unit := do
  fromExcept (← ask (.atomicWrite path (receiptBytes receipt)))

def cargoBench (setOrder : SetOrder) (receiptBytes : BuildReceipt → Bytes)
    (request : BuildRequest) : Cargo Unit := do
  let receipt ← prepareReceipt codec setOrder request
  storeReceipt receiptBytes request.receiptPath receipt

/-! ### The checkout of a receipt, seen by another user -/

/-- A root process runs Git as the user. -/
def gitUser (euid uid gid : ℕ) : Option (ℕ × ℕ) := if euid = 0 then some (uid, gid) else none

def gitStdoutAs (repository : PathBuf) (arguments : List String) (uid gid : ℕ) :
    Cargo String := do
  let euid ← ask .geteuid
  let output ← orIo "running Git receipt verification"
    (← ask (.output (gitUser euid uid gid) "git" (["-C", repository.display] ++ arguments)))
  if !output.success then
    throw (.preflight s!"Git receipt verification exited with {output.status}")
  else
    match output.stdout with
    | none => throw (.preflight "Git emitted non-UTF-8 output")
    | some text => return text

def BuildReceipt.verifyCheckoutAs (receipt : BuildReceipt) (uid gid : ℕ) : Cargo Unit := do
  let commit ← gitStdoutAs receipt.repository revParseHead uid gid
  if trim commit ≠ receipt.sourceCommit then
    throw (.preflight "checked-out commit differs from the build receipt")
  else
    let status ← gitStdoutAs receipt.repository statusPorcelain uid gid
    if status ≠ "" then
      throw (.preflight
        "official run requires the clean checkout recorded by the build receipt")
    else
      let actualLock ← cargoFileDigest codec receipt.lockfilePath "digesting current Cargo.lock"
      if actualLock ≠ receipt.lockfileSha256 then
        throw (.preflight "Cargo.lock differs from the build receipt")
      else
        return ()

end Snoozer.Benchctl
