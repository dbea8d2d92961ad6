import Snoozer.ReceiptAcceptance

/-! The benchmark's own check of the receipt that it was started with, `validate_official_receipt` of
`benches/wake_latency.rs`, and what it adds to the checks of Benchctl. -/
namespace Json

/-- `serde_json::Value`; a number by its text, and an object with one member for each name. -/
inductive Value where
  | null
  | bool (value : Bool)
  | number (text : String)
  | string (text : String)
  | array (items : List Value)
  | object (members : List (String × Value))

namespace Value

def asStr : Value → Option String
  | string text => some text
  | _ => none

def asBool : Value → Option Bool
  | bool value => some value
  | _ => none

def asArray : Value → Option (List Value)
  | array items => some items
  | _ => none

def asObject : Value → Option (List (String × Value))
  | object members => some members
  | _ => none

end Value

end Json

namespace Snoozer.Benchctl
open Json

/-- The members of a receipt, in the order of its fields. -/
def BuildReceipt.members (receipt : BuildReceipt) : List (String × Value) :=
  [("version", .string receipt.version), ("build_id", .string receipt.buildId),
    ("manifest_path", .string receipt.manifestPath.display),
    ("repository", .string receipt.repository.display),
    ("source_commit", .string receipt.sourceCommit),
    ("source_clean", .bool receipt.sourceClean),
    ("lockfile_path", .string receipt.lockfilePath.display),
    ("lockfile_sha256", .string receipt.lockfileSha256),
    ("package_id", .string receipt.packageId), ("bench", .string receipt.bench),
    ("features", .array (receipt.features.map .string)), ("profile", .string receipt.profile),
    ("rustc", .string receipt.rustc), ("rustup_toolchain", .string receipt.rustupToolchain),
    ("target_triple", .string receipt.targetTriple),
    ("benchctl_version", .string receipt.benchctlVersion),
    ("benchctl_executable_sha256", .string receipt.benchctlExecutableSha256),
    ("executable", .string receipt.executable.display),
    ("executable_sha256", .string receipt.executableSha256),
    ("built_unix_millis", .number (toString receipt.builtUnixMillis))]

end Snoozer.Benchctl

namespace Snoozer.WakeLatency
open Json Results
open Benchctl (BuildReceipt Bytes IoError)

structure BuildReceiptProvenance where
  version : String
  buildId : String
  repository : String
  sourceCommit : String
  lockfilePath : String
  lockfileSha256 : String
  packageId : String
  bench : String
  features : List String
  profile : String
  rustc : String
  rustupToolchain : String
  targetTriple : String
  benchctlVersion : String
  benchctlExecutableSha256 : String
  executableSha256 : String
  deriving DecidableEq, Repr

/-- The values of `option_env!`. -/
structure Stamps where
  compiledCommit : Option String
  compiledRepository : Option String
  compiledRustc : Option String
  compiledRustupToolchain : Option String
  compiledDirty : Option String
  deriving DecidableEq, Repr

/-- What a compilation with these variables stamps. -/
def compiledWith (environment : List (String × String)) : Stamps where
  compiledCommit := environment.lookup "SNOOZER_BENCHMARK_COMMIT"
  compiledRepository := environment.lookup "SNOOZER_BENCHMARK_REPOSITORY"
  compiledRustc := environment.lookup "SNOOZER_BENCHMARK_RUSTC"
  compiledRustupToolchain := environment.lookup "SNOOZER_BENCHMARK_RUSTUP_TOOLCHAIN"
  compiledDirty := environment.lookup "SNOOZER_BENCHMARK_DIRTY"

/-- `ok_or`. -/
def orError {α : Type} (error : String) : Option α → Except String α
  | some a => .ok a
  | none => .error error

/-- The closure `string`. -/
def requiredString (object : List (String × Value)) (name : String) : Except String String :=
  orError s!"BENCHCTL_BUILD_RECEIPT requires non-empty string {name}"
    (((object.lookup name).bind Value.asStr).filter fun value => !value.isEmpty)

def featureString (value : Value) : Except String String :=
  orError "BENCHCTL_BUILD_RECEIPT features must be non-empty strings"
    (value.asStr.filter fun value => !value.isEmpty)

def compiled (value : Option String) (error : String) : Except String String :=
  orError error (value.filter fun value => !value.isEmpty)

/-- The fields of the provenance, read in their order. -/
def readProvenance (object : List (String × Value)) (version : String) :
    Except String BuildReceiptProvenance := do
  let buildId ← requiredString object "build_id"
  let repository ← requiredString object "repository"
  let sourceCommit ← requiredString object "source_commit"
  let lockfilePath ← requiredString object "lockfile_path"
  let lockfileSha256 ← requiredString object "lockfile_sha256"
  let packageId ← requiredString object "package_id"
  let bench ← requiredString object "bench"
  let items ← orError "BENCHCTL_BUILD_RECEIPT requires features array"
    ((object.lookup "features").bind Value.asArray)
  let features ← items.mapM featureString
  let profile ← requiredString object "profile"
  let rustc ← requiredString object "rustc"
  let rustupToolchain ← requiredString object "rustup_toolchain"
  let targetTriple ← requiredString object "target_triple"
  let benchctlVersion ← requiredString object "benchctl_version"
  let benchctlExecutableSha256 ← requiredString object "benchctl_executable_sha256"
  let executableSha256 ← requiredString object "executable_sha256"
  return ⟨version, buildId, repository, sourceCommit, lockfilePath, lockfileSha256, packageId, bench,
    features, profile, rustc, rustupToolchain, targetTriple, benchctlVersion,
    benchctlExecutableSha256, executableSha256⟩

/-- The receipt is compared with the stamps of the executable. -/
def matchStamps (stamps : Stamps) (receipt : BuildReceiptProvenance) : Except String Unit := do
  let compiledCommit ← compiled stamps.compiledCommit
    "official mode requires a Benchctl-stamped benchmark executable"
  let compiledRepository ← compiled stamps.compiledRepository
    "official mode requires a Benchctl-stamped benchmark repository"
  let compiledRustc ← compiled stamps.compiledRustc
    "official mode requires a Benchctl-stamped Rust compiler"
  let compiledToolchain ← compiled stamps.compiledRustupToolchain
    "official mode requires a Benchctl-stamped Rust toolchain"
  if stamps.compiledDirty ≠ some "false" ∨ receipt.sourceCommit ≠ compiledCommit ∨
      receipt.rustc ≠ compiledRustc ∨ receipt.rustupToolchain ≠ compiledToolchain ∨
      receipt.repository ≠ compiledRepository ∨ receipt.bench ≠ "wake_latency" ∨
      receipt.profile ≠ "bench" ∨ "benchmark-only" ∉ receipt.features then
    throw "BENCHCTL_BUILD_RECEIPT does not match this official benchmark executable"
  else
    return ()

/-- `sha256` is the digest in hexadecimal, and `selfExe` what reading `/proc/self/exe` gives. -/
def validateOfficialReceipt (sha256 : Bytes → String) (stamps : Stamps)
    (selfExe : Except IoError Bytes) (value : Value) : Except String BuildReceiptProvenance := do
  let object ← orError "BENCHCTL_BUILD_RECEIPT must contain a JSON object" value.asObject
  let version ← requiredString object "version"
  if version ≠ "benchctl-build-receipt-v1" then
    throw s!"unsupported BENCHCTL_BUILD_RECEIPT version: {version}"
  else if (object.lookup "source_clean").bind Value.asBool ≠ some true then
    throw "official BENCHCTL_BUILD_RECEIPT must record a clean source tree"
  else
    let receipt ← readProvenance object version
    matchStamps stamps receipt
    let _originalExecutable ← requiredString object "executable"
    let currentExecutable ← selfExe.mapError fun error =>
      s!"reading current benchmark executable: {error.message}"
    if sha256 currentExecutable ≠ receipt.executableSha256 then
      throw "BENCHCTL_BUILD_RECEIPT digest names a different benchmark executable"
    else
      return receipt

theorem orError_eq_ok {α : Type} {error : String} {o : Option α} {a : α} :
    orError error o = .ok a ↔ o = some a := by
  cases o with
  | none => exact iff_of_false (fun h => by cases h) fun h => by cases h
  | some b => exact ⟨fun h => congrArg some (Except.ok.inj h), fun h => by rw [Option.some.inj h]; rfl⟩

theorem filter_nonempty {o : Option String} {s : String} :
    (o.filter fun value => !value.isEmpty) = some s ↔ o = some s ∧ s ≠ "" := by
  rw [Option.filter_eq_some_iff, Bool.not_eq_true', String.isEmpty_eq_false_iff]

theorem requiredString_eq_ok {object : List (String × Value)} {name s : String} :
    requiredString object name = .ok s ↔
      (object.lookup name).bind Value.asStr = some s ∧ s ≠ "" := by
  rw [requiredString, orError_eq_ok, filter_nonempty]

theorem compiled_eq_ok {o : Option String} {error s : String} :
    compiled o error = .ok s ↔ o = some s ∧ s ≠ "" := by
  rw [compiled, orError_eq_ok, filter_nonempty]

/-- Features are read when none of them is empty. -/
theorem mapM_featureString {features result : List String} :
    (features.map Value.string).mapM featureString = .ok result ↔
      "" ∉ features ∧ result = features := by
  induction features generalizing result with
  | nil => simp [pure_eq_ok]
  | cons feature rest ih =>
    rw [List.map_cons, List.mapM_cons, bind_eq_ok]
    simp only [bind_eq_ok, pure_eq_ok, ih, featureString, Value.asStr, orError_eq_ok,
      filter_nonempty, List.mem_cons, not_or]
    constructor
    · rintro ⟨_, ⟨⟨⟩, hne⟩, _, ⟨hrest, rfl⟩, rfl⟩
      exact ⟨⟨Ne.symm hne, hrest⟩, rfl⟩
    · rintro ⟨⟨hne, hrest⟩, rfl⟩
      exact ⟨feature, ⟨rfl, Ne.symm hne⟩, rest, ⟨hrest, rfl⟩, rfl⟩

end Snoozer.WakeLatency

namespace Snoozer.Benchctl
open WakeLatency

def BuildReceipt.provenance (receipt : BuildReceipt) : BuildReceiptProvenance where
  version := receipt.version
  buildId := receipt.buildId
  repository := receipt.repository.display
  sourceCommit := receipt.sourceCommit
  lockfilePath := receipt.lockfilePath.display
  lockfileSha256 := receipt.lockfileSha256
  packageId := receipt.packageId
  bench := receipt.bench
  features := receipt.features
  profile := receipt.profile
  rustc := receipt.rustc
  rustupToolchain := receipt.rustupToolchain
  targetTriple := receipt.targetTriple
  benchctlVersion := receipt.benchctlVersion
  benchctlExecutableSha256 := receipt.benchctlExecutableSha256
  executableSha256 := receipt.executableSha256

end Snoozer.Benchctl

namespace Snoozer.WakeLatency
open Json Results
open Benchctl (BuildReceipt Bytes IoError)

section Accepts

variable {receipt : BuildReceipt}

/-- The texts of a receipt that may not be empty. -/
structure BuildReceiptProvenance.Filled (p : BuildReceiptProvenance) : Prop where
  buildId : p.buildId ≠ ""
  repository : p.repository ≠ ""
  sourceCommit : p.sourceCommit ≠ ""
  lockfilePath : p.lockfilePath ≠ ""
  lockfileSha256 : p.lockfileSha256 ≠ ""
  packageId : p.packageId ≠ ""
  bench : p.bench ≠ ""
  features : "" ∉ p.features
  profile : p.profile ≠ ""
  rustc : p.rustc ≠ ""
  rustupToolchain : p.rustupToolchain ≠ ""
  targetTriple : p.targetTriple ≠ ""
  benchctlVersion : p.benchctlVersion ≠ ""
  benchctlExecutableSha256 : p.benchctlExecutableSha256 ≠ ""
  executableSha256 : p.executableSha256 ≠ ""

theorem requiredString_member {name s s' : String}
    (h : (receipt.members.lookup name).bind Value.asStr = some s) :
    requiredString receipt.members name = .ok s' ↔ s' = s ∧ s ≠ "" := by
  rw [requiredString_eq_ok, h]
  constructor
  · rintro ⟨⟨⟩, hne⟩
    exact ⟨rfl, hne⟩
  · rintro ⟨rfl, hne⟩
    exact ⟨rfl, hne⟩

/-- The provenance that is read is the written one, all of whose fields are filled. -/
theorem readProvenance_members {version : String} {p : BuildReceiptProvenance} :
    readProvenance receipt.members version = .ok p ↔
      p = { receipt.provenance with version := version } ∧ receipt.provenance.Filled := by
  have hfeatures : (receipt.members.lookup "features").bind Value.asArray =
      some (receipt.features.map .string) := rfl
  unfold readProvenance
  simp only [bind_eq_ok, orError_eq_ok, hfeatures, Option.some.injEq, pure_eq_ok]
  constructor
  · rintro ⟨buildId, ebuildId, repository, erepository, commit, ecommit, lockfile, elockfile, digest,
      edigest, package, epackage, bench, ebench, _, rfl, features, efeatures, profile, eprofile, rustc,
      erustc, toolchain, etoolchain, triple, etriple, version', eversion, benchctl, ebenchctl,
      executable, eexecutable, rfl⟩
    obtain ⟨rfl, hbuildId⟩ := (requiredString_member rfl).mp ebuildId
    obtain ⟨rfl, hrepository⟩ := (requiredString_member rfl).mp erepository
    obtain ⟨rfl, hcommit⟩ := (requiredString_member rfl).mp ecommit
    obtain ⟨rfl, hlockfile⟩ := (requiredString_member rfl).mp elockfile
    obtain ⟨rfl, hdigest⟩ := (requiredString_member rfl).mp edigest
    obtain ⟨rfl, hpackage⟩ := (requiredString_member rfl).mp epackage
    obtain ⟨rfl, hbench⟩ := (requiredString_member rfl).mp ebench
    obtain ⟨hnamed, rfl⟩ := mapM_featureString.mp efeatures
    obtain ⟨rfl, hprofile⟩ := (requiredString_member rfl).mp eprofile
    obtain ⟨rfl, hrustc⟩ := (requiredString_member rfl).mp erustc
    obtain ⟨rfl, htoolchain⟩ := (requiredString_member rfl).mp etoolchain
    obtain ⟨rfl, htriple⟩ := (requiredString_member rfl).mp etriple
    obtain ⟨rfl, hversion⟩ := (requiredString_member rfl).mp eversion
    obtain ⟨rfl, hbenchctl⟩ := (requiredString_member rfl).mp ebenchctl
    obtain ⟨rfl, hexecutable⟩ := (requiredString_member rfl).mp eexecutable
    exact ⟨rfl, hbuildId, hrepository, hcommit, hlockfile, hdigest, hpackage, hbench, hnamed,
      hprofile, hrustc, htoolchain, htriple, hversion, hbenchctl, hexecutable⟩
  · rintro ⟨rfl, h⟩
    have hmember {name s : String} (hlookup : (receipt.members.lookup name).bind Value.asStr = some s)
        (hne : s ≠ "") : requiredString receipt.members name = .ok s :=
      (requiredString_member hlookup).mpr ⟨rfl, hne⟩
    exact ⟨_, hmember rfl h.buildId, _, hmember rfl h.repository, _, hmember rfl h.sourceCommit, _,
      hmember rfl h.lockfilePath, _, hmember rfl h.lockfileSha256, _, hmember rfl h.packageId, _,
      hmember rfl h.bench, _, rfl, _, mapM_featureString.mpr ⟨h.features, rfl⟩, _, hmember rfl h.profile, _,
      hmember rfl h.rustc, _, hmember rfl h.rustupToolchain, _, hmember rfl h.targetTriple, _,
      hmember rfl h.benchctlVersion, _, hmember rfl h.benchctlExecutableSha256, _,
      hmember rfl h.executableSha256, rfl⟩

/-- The stamps match when each was compiled in and is the receipt's. -/
theorem matchStamps_eq_ok {stamps : Stamps} {p : BuildReceiptProvenance} {u : Unit} :
    matchStamps stamps p = .ok u ↔
      (stamps.compiledCommit = some p.sourceCommit ∧ p.sourceCommit ≠ "") ∧
      (stamps.compiledRepository = some p.repository ∧ p.repository ≠ "") ∧
      (stamps.compiledRustc = some p.rustc ∧ p.rustc ≠ "") ∧
      (stamps.compiledRustupToolchain = some p.rustupToolchain ∧ p.rustupToolchain ≠ "") ∧
      stamps.compiledDirty = some "false" ∧ p.bench = "wake_latency" ∧ p.profile = "bench" ∧
      "benchmark-only" ∈ p.features := by
  unfold matchStamps
  simp only [bind_eq_ok, compiled_eq_ok]
  constructor
  · rintro ⟨commit, hcommit, repository, hrepository, rustc, hrustc, toolchain, htoolchain, h⟩
    obtain ⟨hsame, -⟩ := guard_eq_ok.mp h
    simp only [not_or, not_not] at hsame
    obtain ⟨hdirty, rfl, rfl, rfl, rfl, hbench, hprofile, hfeature⟩ := hsame
    exact ⟨hcommit, hrepository, hrustc, htoolchain, hdirty, hbench, hprofile, hfeature⟩
  · rintro ⟨hcommit, hrepository, hrustc, htoolchain, hdirty, hbench, hprofile, hfeature⟩
    refine ⟨_, hcommit, _, hrepository, _, hrustc, _, htoolchain, guard_eq_ok.mpr ⟨?_, rfl⟩⟩
    simp only [not_or, not_not]
    exact ⟨hdirty, trivial, trivial, trivial, trivial, hbench, hprofile, hfeature⟩

/-- The check of a receipt by a benchmark that was stamped with that receipt's own values. -/
theorem validateOfficialReceipt_stamped {sha256 : Bytes → String} {selfExe : Except IoError Bytes}
    {p : BuildReceiptProvenance} :
    validateOfficialReceipt sha256 (compiledWith (Benchctl.stamps receipt)) selfExe
        (.object receipt.members) = .ok p ↔
      p = receipt.provenance ∧ receipt.version = Benchctl.receiptVersion ∧
      receipt.sourceClean = true ∧ receipt.provenance.Filled ∧ receipt.bench = "wake_latency" ∧
      receipt.profile = "bench" ∧ "benchmark-only" ∈ receipt.features ∧
      receipt.executable.display ≠ "" ∧
      ∃ bytes, selfExe = .ok bytes ∧ sha256 bytes = receipt.executableSha256 := by
  have hclean : (receipt.members.lookup "source_clean").bind Value.asBool =
      some receipt.sourceClean := rfl
  unfold validateOfficialReceipt
  constructor
  · intro h
    obtain ⟨object, hobject, h₁⟩ := bind_eq_ok.mp h
    obtain rfl := Option.some.inj (orError_eq_ok.mp hobject)
    obtain ⟨version, hread, h₂⟩ := bind_eq_ok.mp h₁
    obtain ⟨hversion, -⟩ := (requiredString_member rfl).mp hread
    obtain ⟨hknown, h₃⟩ := guard_eq_ok.mp h₂
    obtain ⟨hsource, h₄⟩ := guard_eq_ok.mp h₃
    obtain ⟨q, hprovenance, h₅⟩ := bind_eq_ok.mp h₄
    obtain ⟨hq, hfilled⟩ := readProvenance_members.mp hprovenance
    obtain ⟨_, hmatch, h₆⟩ := bind_eq_ok.mp h₅
    obtain ⟨-, -, -, -, -, hbench, hprofile, hfeature⟩ := matchStamps_eq_ok.mp hmatch
    obtain ⟨_, horiginal, h₇⟩ := bind_eq_ok.mp h₆
    obtain ⟨-, hexecutable⟩ := (requiredString_member rfl).mp horiginal
    obtain ⟨bytes, hself, h₈⟩ := bind_eq_ok.mp h₇
    obtain ⟨hdigest, h₉⟩ := guard_eq_ok.mp h₈
    rw [hq, hversion] at hbench hprofile hfeature hdigest h₉
    rw [hclean] at hsource
    exact ⟨pure_eq_ok.mp h₉, hversion.symm.trans (not_not.mp hknown),
      Option.some.inj (not_not.mp hsource), hfilled, hbench, hprofile, hfeature, hexecutable,
      bytes, mapError_eq_ok.mp hself, not_not.mp hdigest⟩
  · rintro ⟨rfl, hversion, hsource, hfilled, hbench, hprofile, hfeature, hexecutable, bytes, hself,
      hdigest⟩
    have hread : requiredString receipt.members "version" = .ok receipt.version :=
      (requiredString_member rfl).mpr ⟨rfl, by rw [hversion]; decide⟩
    have hmatch : matchStamps (compiledWith (Benchctl.stamps receipt)) receipt.provenance = .ok () :=
      matchStamps_eq_ok.mpr ⟨⟨rfl, hfilled.sourceCommit⟩, ⟨rfl, hfilled.repository⟩,
        ⟨rfl, hfilled.rustc⟩, ⟨rfl, hfilled.rustupToolchain⟩, rfl, hbench, hprofile, hfeature⟩
    have horiginal : requiredString receipt.members "executable" = .ok receipt.executable.display :=
      (requiredString_member rfl).mpr ⟨rfl, hexecutable⟩
    refine bind_eq_ok.mpr ⟨receipt.members, rfl, bind_eq_ok.mpr ⟨_, hread, ?_⟩⟩
    refine guard_eq_ok.mpr ⟨not_not.mpr hversion, guard_eq_ok.mpr ⟨?_, ?_⟩⟩
    · rw [hclean, hsource]
      exact not_not.mpr rfl
    · refine bind_eq_ok.mpr ⟨_, readProvenance_members.mpr ⟨rfl, hfilled⟩, ?_⟩
      refine bind_eq_ok.mpr ⟨(), hmatch, bind_eq_ok.mpr ⟨_, horiginal, ?_⟩⟩
      refine bind_eq_ok.mpr ⟨bytes, mapError_eq_ok.mpr hself, guard_eq_ok.mpr ⟨?_, rfl⟩⟩
      exact not_not.mpr hdigest

end Accepts

section Official

open Interactive Interactive.Fallible
open Benchctl (BuildRequest CargoOp CargoAns CargoEvent Certified HostOp HostAns PathBuf)

theorem display_ne_empty {path : PathBuf} (h : path.absolute = true) : path.display ≠ "" := by
  unfold PathBuf.display
  rw [if_pos h]
  intro hempty
  have hlength := congrArg String.length hempty
  rw [String.length_append] at hlength
  simp at hlength

variable {codec : Benchctl.Codec} {request : BuildRequest} {receipt : BuildReceipt}
  {t : List CargoEvent}

/-- A receipt that Benchctl accepts leaves none of these texts empty. -/
theorem filled_of_complete (h : Certified codec request receipt t)
    (hdigest : ∀ bytes, codec.hexDigest bytes ≠ "") (hpackage : codec.packageVersion ≠ "")
    (hcanonical : ∀ path path', (⟨.canonicalize path, .ok path'⟩ : CargoEvent) ∈ t →
      path'.absolute = true)
    (hcomplete : receipt.Complete) : receipt.provenance.Filled := by
  obtain ⟨hbench, hnonempty, hfeatures, hnormal⟩ := h.requested
  obtain ⟨-, -, hprofile, hversion, hid⟩ := h.written
  obtain ⟨path, hrepository⟩ := h.located.repository
  have hroot := hcanonical _ _ hrepository
  obtain ⟨checkout, -, htracked⟩ := h.locked
  have hinside := htracked.inside
  rw [PathBuf.startsWith, Bool.and_eq_true, beq_iff_eq] at hinside
  obtain ⟨-, -, -, -, -, -, -, -, -, ⟨-, ⟨image, -, himage⟩, -, own, -, -, hown⟩, -⟩ := h.build.order
  refine ⟨?_, display_ne_empty hroot, hcomplete.commit, display_ne_empty (hinside.1.trans hroot),
    hcomplete.lockfile, hcomplete.package, ?_, ?_, ?_, h.rustc_ne_empty, hcomplete.toolchain,
    hcomplete.triple, ?_, ?_, ?_⟩
  · show receipt.buildId ≠ ""
    rw [← hid]
    exact hdigest _
  · show receipt.bench ≠ ""
    rw [hbench]
    exact hnonempty
  · show "" ∉ receipt.features
    rw [hnormal, Benchctl.mem_normalizeFeatures]
    exact hfeatures
  · show receipt.profile ≠ ""
    rw [hprofile]
    decide
  · show receipt.benchctlVersion ≠ ""
    rw [hversion]
    exact hpackage
  · show receipt.benchctlExecutableSha256 ≠ ""
    rw [← hown]
    exact hdigest _
  · show receipt.executableSha256 ≠ ""
    rw [← himage]
    exact hdigest _

/-- Of the receipts that a build has stored and that Benchctl accepts, the benchmark stamped in that
build accepts exactly those for `wake_latency` with the feature `benchmark-only`, and only from the
executable that was digested; and it then knows what the receipt says. -/
theorem official_receipt_accepted_iff {setOrder : Benchctl.SetOrder}
    {receiptBytes : BuildReceipt → Bytes}
    (h : Reach (traceMachine CargoOp CargoAns)
      ((Benchctl.cargoBench codec setOrder receiptBytes request).run, []) (.ret (.ok ()), t))
    (hcanonical : ∀ path path', (⟨.canonicalize path, .ok path'⟩ : CargoEvent) ∈ t →
      path'.absolute = true)
    (hdigest : ∀ bytes, codec.hexDigest bytes ≠ "") (hpackage : codec.packageVersion ≠ "") :
    ∃ receipt log arguments timeout environment status,
      (⟨.guardedCargo receipt.repository log arguments timeout environment, .ok status⟩ :
        CargoEvent) ∈ t ∧ status.success = true ∧
      (⟨.atomicWrite request.receiptPath (receiptBytes receipt), .ok ()⟩ : CargoEvent) ∈ t ∧
      ∀ look : (op : HostOp) → Option (HostAns op),
        Yields look (Benchctl.loadReceipt codec request.receiptPath) receipt →
        ∀ selfExe p,
          validateOfficialReceipt codec.hexDigest (compiledWith environment) selfExe
            (.object receipt.members) = .ok p ↔
          p = receipt.provenance ∧ request.bench = "wake_latency" ∧
            "benchmark-only" ∈ request.features ∧
            ∃ bytes, selfExe = .ok bytes ∧ codec.hexDigest bytes = receipt.executableSha256 := by
  obtain ⟨hwritten, hsucceeded⟩ := Benchctl.receipt_written_last h
  obtain ⟨bytes, hmem⟩ := hsucceeded rfl
  obtain ⟨-, -, receipt, events, rfl, ht, -, hcertified⟩ := hwritten _ _ _ hmem
  dsimp only at ht
  subst ht
  have habsolute : ∀ path path', (⟨.canonicalize path, .ok path'⟩ : CargoEvent) ∈ events →
      path'.absolute = true := fun path path' hpath => hcanonical _ _ (List.mem_append_left _ hpath)
  obtain ⟨before, log, timeout, status, built, after, hevents, hsuccess, -⟩ := hcertified.build.order
  have hbuild : (⟨.guardedCargo receipt.repository log (Benchctl.benchArguments receipt.manifestPath
      receipt.bench receipt.targetTriple request.features) timeout (Benchctl.stamps receipt),
      .ok status⟩ : CargoEvent) ∈ events := by
    rw [hevents]
    exact List.mem_append_right _ List.mem_cons_self
  refine ⟨receipt, log, _, timeout, Benchctl.stamps receipt, status,
    List.mem_append_left _ hbuild, hsuccess, hmem, ?_⟩
  intro look hload selfExe p
  obtain ⟨-, hidentity, -⟩ := Benchctl.yields_loadReceipt.mp hload
  obtain ⟨hversion, hclean, hvalid, -, -⟩ := Benchctl.yields_verifyIdentity.mp hidentity
  have hcomplete := (hcertified.fieldsInvalid_eq_false habsolute).mp hvalid
  have hfilled := filled_of_complete hcertified hdigest hpackage habsolute hcomplete
  obtain ⟨hbench, -, -, hfeatures⟩ := hcertified.requested
  obtain ⟨-, -, hprofile, -, -⟩ := hcertified.written
  have hexecutable := display_ne_empty hcomplete.executable
  rw [validateOfficialReceipt_stamped, hbench, hfeatures, Benchctl.mem_normalizeFeatures]
  constructor
  · rintro ⟨hp, -, -, -, hname, -, hfeature, -, hself⟩
    exact ⟨hp, hname, hfeature, hself⟩
  · rintro ⟨hp, hname, hfeature, hself⟩
    exact ⟨hp, hversion, hclean, hfilled, hname, hprofile, hfeature, hexecutable, hself⟩

end Official

/-- The benchmark of the good build accepts its receipt. -/
theorem official_receipt_accepted_sample :
    ∃ environment, validateOfficialReceipt Benchctl.sampleBuildCodec.hexDigest
      (compiledWith environment) (.ok []) (.object Benchctl.sampleBuilt.members) =
        .ok Benchctl.sampleBuilt.provenance := by
  obtain ⟨t, ht, hlook⟩ := Interactive.Prog.answered_of_answer
    (Benchctl.sampleCargo_cargoBench Benchctl.sampleReceiptBytes (if_pos rfl))
  have hcanonical : ∀ path path', (⟨.canonicalize path, .ok path'⟩ : Benchctl.CargoEvent) ∈ t →
      path'.absolute = true := by
    intro path path' hmem
    have hanswer := hlook _ hmem
    cases hanswer
    rfl
  obtain ⟨receipt, log, arguments, timeout, environment, status, -, -, hmem, haccepted⟩ :=
    official_receipt_accepted_iff (ht.reach []) hcanonical
      (fun _ => show "d" ≠ "" by decide) (show "1" ≠ "" by decide)
  obtain rfl : receipt = Benchctl.sampleBuilt := Benchctl.sampleBuilt_of_written hlook hmem
  have hload : Interactive.Yields Benchctl.sampleLater
      (Benchctl.loadReceipt Benchctl.sampleBuildCodec ⟨true, ["o"]⟩) Benchctl.sampleBuilt := rfl
  exact ⟨environment, (haccepted _ hload _ _).mpr ⟨rfl, rfl, List.mem_cons_self, [], rfl, rfl⟩⟩

end Snoozer.WakeLatency
