import Snoozer.CargoBench

/-! What a receipt certifies. Every run of `cargo_bench`, with any answers, stores a receipt at most
once and last, and only after everything that the receipt says has been seen in this run, the source
commit, the clean working tree and the lockfile both before and after the build. -/
namespace Snoozer.Benchctl
open Interactive Interactive.Fallible Results

abbrev CargoEvent := Event CargoOp CargoAns

/-- A command succeeded with this output. -/
def Printed (user : Option (ℕ × ℕ)) (program : String) (arguments : List String) (text : String)
    (e : CargoEvent) : Prop :=
  ∃ status, e = ⟨.output user program arguments, .ok ⟨true, status, some text⟩⟩

section Stages

variable {codec : Codec} {t : List CargoEvent} {α : Type}

theorem answers_orIo_bind {β : Type} {operation : String} {r : Except IoError α}
    {f : α → Cargo β} {b : β} :
    Answers (orIo operation r >>= f) t (.ok b) ↔ ∃ a, Answers (f a) t (.ok b) ∧ r = .ok a :=
  answers_mapError_bind

/-- The text is what the one command has printed. -/
theorem answers_commandStdout {program : String} {arguments : List String}
    {operation text : String} :
    Answers (commandStdout program arguments operation) t (.ok text) ↔
      ∃ e, Printed none program arguments text e ∧ t = [e] := by
  unfold commandStdout
  rw [answers_ask_bind]
  constructor
  · rintro ⟨x, rest, h, rfl⟩
    obtain ⟨output, h, rfl⟩ := answers_orIo_bind.mp h
    obtain ⟨hsuccess, h⟩ := answers_guard.mp h
    obtain ⟨success, status, stdout⟩ := output
    cases stdout with
    | none => exact absurd h answers_throw
    | some text' =>
      obtain ⟨rfl, rfl⟩ := answers_pure.mp h
      have hsuccess : success = true := by simpa using hsuccess
      subst hsuccess
      exact ⟨_, ⟨status, rfl⟩, rfl⟩
  · rintro ⟨e, ⟨status, rfl⟩, rfl⟩
    refine ⟨_, [], answers_orIo_bind.mpr ⟨_, answers_guard.mpr ⟨by simp, ?_⟩, rfl⟩, rfl⟩
    exact answers_pure.mpr ⟨rfl, rfl⟩

theorem answers_gitStdout {repository : PathBuf} {arguments : List String}
    {operation text : String} :
    Answers (gitStdout repository arguments operation) t (.ok text) ↔
      ∃ e, Printed none "git" (["-C", repository.display] ++ arguments) text e ∧ t = [e] :=
  answers_commandStdout

/-- The digest is of the bytes that the one call has read. -/
theorem answers_cargoFileDigest {path : PathBuf} {operation digest : String} :
    Answers (cargoFileDigest codec path operation) t (.ok digest) ↔
      ∃ bytes, codec.hexDigest bytes = digest ∧ t = [⟨.readFile path, .ok bytes⟩] := by
  unfold cargoFileDigest
  rw [answers_ask_bind]
  constructor
  · rintro ⟨x, rest, h, rfl⟩
    obtain ⟨bytes, h, rfl⟩ := answers_orIo_bind.mp h
    obtain ⟨rfl, rfl⟩ := answers_pure.mp h
    exact ⟨bytes, rfl, rfl⟩
  · rintro ⟨bytes, rfl, rfl⟩
    exact ⟨_, [], answers_orIo_bind.mpr ⟨bytes, answers_pure.mpr ⟨rfl, rfl⟩, rfl⟩, rfl⟩

theorem answers_requireTrackedNow {repository path : PathBuf} {label : String} {u : Unit} :
    Answers (requireTrackedNow repository path label) t (.ok u) ↔
      ∃ checkout, Tracked checkout repository path ∧ t = [⟨.checkout, checkout⟩] := by
  unfold requireTrackedNow
  rw [answers_ask_bind]
  constructor
  · rintro ⟨checkout, rest, ⟨rfl, h⟩, rfl⟩
    exact ⟨checkout, requireTracked_eq_ok.mp h, rfl⟩
  · rintro ⟨checkout, h, rfl⟩
    exact ⟨checkout, [], ⟨rfl, requireTracked_eq_ok.mpr h⟩, rfl⟩

theorem rejectNames_eq_ok {names : List String} {u : Unit} :
    rejectNames names = .ok u ↔ ∀ name ∈ names, affectsBuild name = false := by
  induction names with
  | nil => exact iff_of_true rfl fun _ h => absurd h List.not_mem_nil
  | cons name rest ih =>
    rw [rejectNames, guard_eq_ok, ih, List.forall_mem_cons, Bool.not_eq_true]

theorem answers_rejectEnvironmentOverrides {u : Unit}
    (h : Answers rejectEnvironmentOverrides t (.ok u)) :
    ∃ names, t = [⟨.varsOs, names⟩] ∧ ∀ name ∈ names, affectsBuild name = false := by
  obtain ⟨names, rest, ⟨rfl, hnames⟩, rfl⟩ := answers_ask_bind.mp h
  exact ⟨names, rfl, rejectNames_eq_ok.mp hnames⟩

/-- No rejected name was seen in the directory. -/
theorem answers_rejectConfigNames {directory : PathBuf} {names : List String} {u : Unit}
    (h : Answers (rejectConfigNames directory names) t (.ok u)) :
    ∀ name ∈ names, (⟨.pathExists (directory.join name), false⟩ : CargoEvent) ∈ t := by
  induction names generalizing t with
  | nil => exact fun _ hmem => absurd hmem List.not_mem_nil
  | cons name rest ih =>
    obtain ⟨x, last, h₁, rfl⟩ := answers_ask_bind.mp h
    obtain ⟨hx, h₂⟩ := answers_guard.mp h₁
    have hx : x = false := Bool.eq_false_of_not_eq_true hx
    subst hx
    intro name' hmem
    rcases List.mem_cons.mp hmem with rfl | hmem
    · exact List.mem_cons_self
    · exact List.mem_cons_of_mem _ (ih h₂ name' hmem)

/-- No configuration file stands in the directory. -/
def ConfigAbsent (directory : PathBuf) (t : List CargoEvent) : Prop :=
  ∀ name ∈ configNames, (⟨.pathExists (directory.join name), false⟩ : CargoEvent) ∈ t

theorem ConfigAbsent.mono {directory : PathBuf} {t' : List CargoEvent}
    (h : ConfigAbsent directory t) (ht : t ⊆ t') : ConfigAbsent directory t' :=
  fun name hname => ht (h name hname)

theorem answers_rejectAncestors {directories : List PathBuf} {u : Unit}
    (h : Answers (rejectAncestors directories) t (.ok u)) :
    ∀ directory ∈ directories, ConfigAbsent (directory.join ".cargo") t := by
  induction directories generalizing t with
  | nil => exact fun _ hmem => absurd hmem List.not_mem_nil
  | cons directory rest ih =>
    obtain ⟨first, last, _, hfirst, hlast, rfl⟩ := answers_bind.mp h
    intro directory' hmem
    rcases List.mem_cons.mp hmem with rfl | hmem
    · exact ConfigAbsent.mono (answers_rejectConfigNames hfirst) (List.subset_append_left _ _)
    · exact (ih hlast directory' hmem).mono (List.subset_append_right _ _)

/-- A configuration file of the repository is not there, or Git tracks it. -/
def ConfigTracked (repository : PathBuf) (name : String) (t : List CargoEvent) : Prop :=
  (⟨.pathExists ((repository.join ".cargo").join name), false⟩ : CargoEvent) ∈ t ∨
    ∃ output, output.success = true ∧
      (⟨.output none "git"
        ["-C", repository.display, "ls-files", "--error-unmatch", ".cargo/" ++ name],
        .ok output⟩ : CargoEvent) ∈ t

theorem ConfigTracked.mono {repository : PathBuf} {name : String} {t' : List CargoEvent}
    (h : ConfigTracked repository name t) (ht : t ⊆ t') :
    ConfigTracked repository name t' := by
  rcases h with h | ⟨output, hsuccess, h⟩
  · exact Or.inl (ht h)
  · exact Or.inr ⟨output, hsuccess, ht h⟩

/-- Each configuration file was seen tracked, or not at all. -/
theorem answers_verifyTrackedConfig {repository : PathBuf} {names : List String} {u : Unit}
    (h : Answers (verifyTrackedConfig repository names) t (.ok u)) :
    ∀ name ∈ names, ConfigTracked repository name t := by
  induction names generalizing t with
  | nil => exact fun _ hmem => absurd hmem List.not_mem_nil
  | cons name rest ih =>
    obtain ⟨x, last, h₁, rfl⟩ := answers_ask_bind.mp h
    have hlater : ∀ {t : List CargoEvent}, Answers (verifyTrackedConfig repository rest) t (.ok u) →
        ∀ before : List CargoEvent, ConfigTracked repository name (before ++ t) →
          ∀ name' ∈ name :: rest, ConfigTracked repository name' (before ++ t) := by
      intro t h before hname name' hmem
      rcases List.mem_cons.mp hmem with rfl | hmem
      · exact hname
      · exact (ih h name' hmem).mono (List.subset_append_right _ _)
    cases x with
    | false => exact hlater h₁ [_] (Or.inl List.mem_cons_self)
    | true =>
      obtain ⟨y, last, h₂, rfl⟩ := answers_ask_bind.mp h₁
      obtain ⟨output, h₃, rfl⟩ := answers_orIo_bind.mp h₂
      obtain ⟨hsuccess, h₄⟩ := answers_guard.mp h₃
      refine hlater h₄ [_, _] (Or.inr ⟨output, by simpa using hsuccess, ?_⟩)
      exact List.mem_cons_of_mem _ List.mem_cons_self

/-- Cargo has no configuration but that of the repository. -/
structure Unconfigured (repository : PathBuf) (t : List CargoEvent) : Prop where
  own : ∀ name ∈ configNames, ConfigTracked repository name t
  home : ∃ home configured, (⟨.varOs "HOME", some home⟩ : CargoEvent) ∈ t ∧
    (⟨.varOs "CARGO_HOME", configured⟩ : CargoEvent) ∈ t ∧
    (∀ value, configured = some value →
      PathBuf.ofOsStr value = (PathBuf.ofOsStr home).join ".cargo") ∧
    ConfigAbsent ((PathBuf.ofOsStr home).join ".cargo") t
  above : ∀ directory ∈ ancestors repository, ConfigAbsent (directory.join ".cargo") t

theorem Unconfigured.mono {repository : PathBuf} {t' : List CargoEvent}
    (h : Unconfigured repository t) (ht : t ⊆ t') : Unconfigured repository t' where
  own name hname := (h.own name hname).mono ht
  home := by
    obtain ⟨home, configured, hhome, hconfigured, hvalue, habsent⟩ := h.home
    exact ⟨home, configured, ht hhome, ht hconfigured, hvalue, habsent.mono ht⟩
  above directory hdirectory := (h.above directory hdirectory).mono ht

/-- Nothing above the repository configures Cargo, and what is in it is tracked. -/
theorem answers_verifyCargoConfiguration {repository : PathBuf} {u : Unit}
    (h : Answers (verifyCargoConfiguration repository) t (.ok u)) : Unconfigured repository t := by
  obtain ⟨first, rest, _, hown, h₁, rfl⟩ := answers_bind.mp h
  obtain ⟨x, rest, h₂, rfl⟩ := answers_ask_bind.mp h₁
  cases x with
  | none => exact absurd h₂ answers_throw
  | some home =>
    obtain ⟨configured, rest, h₃, rfl⟩ := answers_ask_bind.mp h₂
    obtain ⟨hvalue, h₄⟩ := answers_guard.mp h₃
    obtain ⟨there, rest, _, hthere, h₅, rfl⟩ := answers_bind.mp h₄
    refine ⟨fun name hname => (answers_verifyTrackedConfig hown name hname).mono fun e he => by simp [he],
      ⟨home, configured, by simp, by simp, ?_, ?_⟩, fun directory hdirectory => ?_⟩
    · rintro value rfl
      simpa using hvalue
    · exact ConfigAbsent.mono (answers_rejectConfigNames hthere) fun e he => by simp [he]
    · exact (answers_rejectAncestors h₅ directory hdirectory).mono fun e he => by simp [he]

/-- The manifest and the repository, as they are found. -/
structure LocatedBy (request : BuildRequest) (located : Located) (t : List CargoEvent) : Prop where
  manifest : (⟨.canonicalize request.manifestPath, .ok located.manifestPath⟩ : CargoEvent) ∈ t
  repository : ∃ path, (⟨.canonicalize path, .ok located.repository⟩ : CargoEvent) ∈ t
  unconfigured : Unconfigured located.repository t
  tracked : ∃ checkout, (⟨.checkout, checkout⟩ : CargoEvent) ∈ t ∧
    Tracked checkout located.repository located.manifestPath

/-- The located manifest is the one its calls have named. -/
theorem answers_locate {request : BuildRequest} {located : Located}
    (h : Answers (locate request) t (.ok located)) : LocatedBy request located t := by
  obtain ⟨x, rest, h₁, rfl⟩ := answers_ask_bind.mp h
  obtain ⟨manifestPath, h₂, rfl⟩ := answers_orIo_bind.mp h₁
  cases hparent : manifestPath.parent with
  | none =>
    rw [hparent] at h₂
    exact absurd h₂ answers_throw
  | some directory =>
    rw [hparent] at h₂
    obtain ⟨_, rest, toplevel, -, h₃, rfl⟩ := answers_bind.mp h₂
    obtain ⟨y, rest, h₄, rfl⟩ := answers_ask_bind.mp h₃
    obtain ⟨repository, h₅, rfl⟩ := answers_orIo_bind.mp h₄
    obtain ⟨-, h₆⟩ := answers_guard.mp h₅
    obtain ⟨config, rest, _, hconfig, h₇, rfl⟩ := answers_bind.mp h₆
    obtain ⟨track, rest, _, htrack, h₈, rfl⟩ := answers_bind.mp h₇
    obtain ⟨checkout, htracked, rfl⟩ := answers_requireTrackedNow.mp htrack
    obtain ⟨rfl, rfl⟩ := answers_pure.mp h₈
    have hunconfigured := answers_verifyCargoConfiguration hconfig
    exact ⟨by simp, ⟨PathBuf.ofOsStr (trim toplevel), by simp⟩,
      hunconfigured.mono fun e he => by simp [he], checkout, by simp, htracked⟩

/-- rustc is the pinned one, and these are its identity and its host. -/
structure ToolchainSeen (repository : PathBuf) (toolchain : ToolchainIdentity)
    (t : List CargoEvent) : Prop where
  pinned : ∃ contents channel version e,
    (⟨.readToString (repository.join "rust-toolchain.toml"), .ok contents⟩ : CargoEvent) ∈ t ∧
    (lines contents).filterMap channelOf = [channel] ∧
    e ∈ t ∧ Printed none "rustc" ["--version"] version e ∧
    hasPrefix s!"rustc {channel} " version = true
  identity : ∃ e, e ∈ t ∧ Printed none "rustc" ["-vV"] toolchain.rustc e
  host : (lines toolchain.rustc).findSome? (stripPrefix "host: ") = some toolchain.targetTriple

theorem answers_pinnedToolchain {repository : PathBuf} {channel : String}
    (h : Answers (pinnedToolchain repository) t (.ok channel)) :
    ∃ contents, (lines contents).filterMap channelOf = [channel] ∧
      t = [⟨.readToString (repository.join "rust-toolchain.toml"), .ok contents⟩] := by
  obtain ⟨x, last, h₁, rfl⟩ := answers_ask_bind.mp h
  obtain ⟨contents, h₂, rfl⟩ := answers_orIo_bind.mp h₁
  split at h₂
  · next channel' hlines =>
    obtain ⟨rfl, rfl⟩ := answers_pure.mp h₂
    exact ⟨contents, hlines, rfl⟩
  · exact absurd h₂ answers_throw

/-- The identity consists of what the toolchain has printed. -/
theorem answers_identifyToolchain {repository : PathBuf} {toolchain : ToolchainIdentity}
    (h : Answers (identifyToolchain repository) t (.ok toolchain)) :
    ToolchainSeen repository toolchain t := by
  obtain ⟨first, rest, channel, hpinned, h₁, rfl⟩ := answers_bind.mp h
  obtain ⟨contents, hchannel, rfl⟩ := answers_pinnedToolchain hpinned
  obtain ⟨_, rest, override, -, h₂, rfl⟩ := answers_bind.mp h₁
  obtain ⟨_, rest, version, hversion, h₃, rfl⟩ := answers_bind.mp h₂
  obtain ⟨e, he, rfl⟩ := answers_commandStdout.mp hversion
  obtain ⟨hstarts, h₄⟩ := answers_guard.mp h₃
  obtain ⟨_, rest, rustc, hrustc, h₅, rfl⟩ := answers_bind.mp h₄
  obtain ⟨e', he', rfl⟩ := answers_commandStdout.mp hrustc
  cases hhost : (lines rustc).findSome? (stripPrefix "host: ") with
  | none =>
    rw [hhost] at h₅
    exact absurd h₅ answers_throw
  | some triple =>
    rw [hhost] at h₅
    obtain ⟨rfl, rfl⟩ := answers_pure.mp h₅
    exact ⟨⟨contents, channel, version, e, by simp, hchannel, by simp, he, by simpa using hstarts⟩,
      ⟨e', by simp, he'⟩, hhost⟩

/-- The resolved metadata are those a guarded Cargo has written. -/
theorem answers_readMetadata {request : BuildRequest} {located : Located} {triple : String}
    {resolved : Resolved} (h : Answers (readMetadata request located triple) t (.ok resolved)) :
    ∃ log, (⟨.metadataFrom log, .ok resolved.metadata⟩ : CargoEvent) ∈ t := by
  obtain ⟨_, rest, _, -, h₁, rfl⟩ := answers_bind.mp h
  obtain ⟨started, rest, h₂, rfl⟩ := answers_ask_bind.mp h₁
  obtain ⟨x, rest, h₃, rfl⟩ := answers_ask_bind.mp h₂
  obtain ⟨log, h₄, rfl⟩ := answers_orIo_bind.mp h₃
  obtain ⟨_, rest, remaining, -, h₅, rfl⟩ := answers_bind.mp h₄
  obtain ⟨x, rest, h₆, rfl⟩ := answers_ask_bind.mp h₅
  obtain ⟨status, h₇, rfl⟩ := answers_fromExcept_bind.mp h₆
  obtain ⟨-, h₈⟩ := answers_guard.mp h₇
  obtain ⟨x, rest, h₉, rfl⟩ := answers_ask_bind.mp h₈
  obtain ⟨_, h₁₀, rfl⟩ := answers_orIo_bind.mp h₉
  obtain ⟨parsed, rest, h₁₁, rfl⟩ := answers_ask_bind.mp h₁₀
  obtain ⟨metadata, h₁₂, hparsed⟩ := answers_fromExcept_bind.mp h₁₁
  obtain rfl := mapError_eq_ok.mp hparsed
  obtain ⟨rfl, rfl⟩ := answers_pure.mp h₁₂
  exact ⟨log, by simp⟩

/-- The package that owns the benchmark, with every local package it reaches tracked. -/
structure SelectedBy (bench : String) (repository : PathBuf) (metadata : BuildMetadata)
    (selected : SelectedPackage) (t : List CargoEvent) : Prop where
  workspace : (⟨.canonicalize metadata.workspaceRoot, .ok selected.workspaceRoot⟩ : CargoEvent) ∈ t
  owner : metadata.packages.filter (BuildPackage.owns · bench) = [selected.package]
  graph : ∃ checkout resolve, (⟨.checkout, checkout⟩ : CargoEvent) ∈ t ∧
    metadata.resolve = some resolve ∧
    ∀ id, resolve.Reachable selected.package.id id →
      (resolve.node id).isSome ∧ Accepted checkout repository metadata.toMetadata id

/-- The selected package is the one that has the bench. -/
theorem answers_selectPackage {setOrder : SetOrder} {bench : String} {repository : PathBuf}
    {metadata : BuildMetadata} {selected : SelectedPackage}
    (h : Answers (selectPackage setOrder bench repository metadata) t (.ok selected)) :
    SelectedBy bench repository metadata selected t := by
  obtain ⟨x, rest, h₁, rfl⟩ := answers_ask_bind.mp h
  obtain ⟨workspaceRoot, h₂, rfl⟩ := answers_orIo_bind.mp h₁
  obtain ⟨-, h₃⟩ := answers_guard.mp h₂
  obtain ⟨_, rest, _, -, h₄, rfl⟩ := answers_bind.mp h₃
  split at h₄
  · next package howner =>
    obtain ⟨y, rest, h₅, rfl⟩ := answers_ask_bind.mp h₄
    obtain ⟨manifest, h₆, rfl⟩ := answers_orIo_bind.mp h₅
    obtain ⟨_, rest, _, -, h₇, rfl⟩ := answers_bind.mp h₆
    obtain ⟨checkout, rest, h₈, rfl⟩ := answers_ask_bind.mp h₇
    obtain ⟨_, h₉, hgraph⟩ := answers_fromExcept_bind.mp h₈
    obtain ⟨rfl, rfl⟩ := answers_pure.mp h₉
    obtain ⟨resolve, hresolve, haccepted⟩ := validateReachableLocalGraph_eq_ok.mp hgraph
    exact ⟨by simp, howner, checkout, resolve, by simp, hresolve, haccepted⟩
  · exact absurd h₄ answers_throw

/-- In this order: the commit at `HEAD`, a clean working tree, and the digest of the lockfile. -/
def CheckoutSeen (codec : Codec) (user : Option (ℕ × ℕ)) (repository lockfile : PathBuf)
    (commit digest : String) (t : List CargoEvent) : Prop :=
  ∃ head clean text bytes,
    Printed user "git" (["-C", repository.display] ++ revParseHead) text head ∧
    Printed user "git" (["-C", repository.display] ++ statusPorcelain) "" clean ∧
    [head, clean, ⟨.readFile lockfile, .ok bytes⟩].Sublist t ∧
    trim text = commit ∧ codec.hexDigest bytes = digest

/-- The recorded commit and digest are those of a tracked checkout. -/
theorem answers_recordSource {repository workspaceRoot : PathBuf} {source : Source}
    (h : Answers (recordSource codec repository workspaceRoot) t (.ok source)) :
    source.lockfile = workspaceRoot.join "Cargo.lock" ∧
      CheckoutSeen codec none repository source.lockfile source.commit source.lockfileSha256 t ∧
      ∃ checkout, (⟨.checkout, checkout⟩ : CargoEvent) ∈ t ∧
        Tracked checkout repository source.lockfile := by
  obtain ⟨_, rest, text, hcommand, h₁, rfl⟩ := answers_bind.mp h
  obtain ⟨head, hhead, rfl⟩ := answers_gitStdout.mp hcommand
  obtain ⟨_, rest, status, hquery, h₂, rfl⟩ := answers_bind.mp h₁
  obtain ⟨clean, hclean, rfl⟩ := answers_gitStdout.mp hquery
  obtain ⟨hempty, h₃⟩ := answers_guard.mp h₂
  obtain ⟨_, rest, _, htrack, h₄, rfl⟩ := answers_bind.mp h₃
  obtain ⟨checkout, htracked, rfl⟩ := answers_requireTrackedNow.mp htrack
  obtain ⟨_, rest, digest, hlock, h₅, rfl⟩ := answers_bind.mp h₄
  obtain ⟨bytes, hdigest, rfl⟩ := answers_cargoFileDigest.mp hlock
  obtain ⟨rfl, rfl⟩ := answers_pure.mp h₅
  rw [not_not.mp hempty] at hclean
  refine ⟨rfl, ⟨head, clean, text, bytes, hhead, hclean, ?_, rfl, hdigest⟩,
    checkout, by simp, htracked⟩
  exact ((List.Sublist.refl _).cons _).cons_cons _ |>.cons_cons _

/-- Three calls have seen the checkout as it was recorded. -/
theorem answers_verifyCheckoutUnchanged {repository lockfile : PathBuf} {commit digest : String}
    {u : Unit}
    (h : Answers (verifyCheckoutUnchanged codec repository commit lockfile digest) t (.ok u)) :
    t.length = 3 ∧ CheckoutSeen codec none repository lockfile commit digest t := by
  obtain ⟨_, rest, text, hcommand, h₁, rfl⟩ := answers_bind.mp h
  obtain ⟨head, hhead, rfl⟩ := answers_gitStdout.mp hcommand
  obtain ⟨hcommit, h₂⟩ := answers_guard.mp h₁
  obtain ⟨_, rest, status, hquery, h₃, rfl⟩ := answers_bind.mp h₂
  obtain ⟨clean, hclean, rfl⟩ := answers_gitStdout.mp hquery
  obtain ⟨hempty, h₄⟩ := answers_guard.mp h₃
  obtain ⟨_, rest, digest', hlock, h₅, rfl⟩ := answers_bind.mp h₄
  obtain ⟨bytes, hdigest, rfl⟩ := answers_cargoFileDigest.mp hlock
  obtain ⟨hsame, h₆⟩ := answers_guard.mp h₅
  obtain ⟨rfl, -⟩ := answers_pure.mp h₆
  rw [not_not.mp hempty] at hclean
  exact ⟨rfl, head, clean, text, bytes, hhead, hclean, List.Sublist.refl _, not_not.mp hcommit,
    hdigest.trans (not_not.mp hsame)⟩

/-- What Cargo is told to stamp the benchmark with. -/
def stamps (receipt : BuildReceipt) : List (String × String) :=
  [("SNOOZER_BENCHMARK_COMMIT", receipt.sourceCommit),
    ("SNOOZER_BENCHMARK_REPOSITORY", receipt.repository.display),
    ("SNOOZER_BENCHMARK_DIRTY", "false"),
    ("SNOOZER_BENCHMARK_RUSTUP_TOOLCHAIN", receipt.rustupToolchain),
    ("SNOOZER_BENCHMARK_RUSTC", receipt.rustc)]

/-- The executable is one that the guarded Cargo has named between two verifications. -/
theorem answers_buildBench {request : BuildRequest} {located : Located}
    {toolchain : ToolchainIdentity} {started : ℕ} {packageId commit : String} {executable : PathBuf}
    (h : Answers (buildBench request located toolchain started packageId commit) t
      (.ok executable)) :
    ∃ before log timeout status messages after,
      t = before ++ ⟨.guardedCargo located.repository log
        (benchArguments located.manifestPath request.bench toolchain.targetTriple request.features)
        timeout (benchmarkEnvironment located.repository commit toolchain), .ok status⟩ :: after ∧
      status.success = true ∧ (⟨.messagesFrom log, messages⟩ : CargoEvent) ∈ after ∧
      executables request.bench messages = .ok [(executable, packageId)] := by
  obtain ⟨x, rest, h₁, rfl⟩ := answers_ask_bind.mp h
  obtain ⟨log, h₂, rfl⟩ := answers_orIo_bind.mp h₁
  obtain ⟨time, rest, remaining, -, h₃, rfl⟩ := answers_bind.mp h₂
  obtain ⟨y, rest, h₄, rfl⟩ := answers_ask_bind.mp h₃
  obtain ⟨status, h₅, rfl⟩ := answers_fromExcept_bind.mp h₄
  obtain ⟨hsuccess, h₆⟩ := answers_guard.mp h₅
  obtain ⟨z, rest, h₇, rfl⟩ := answers_ask_bind.mp h₆
  obtain ⟨_, h₈, rfl⟩ := answers_orIo_bind.mp h₇
  obtain ⟨messages, rest, h₉, rfl⟩ := answers_ask_bind.mp h₈
  obtain ⟨paths, h₁₀, hpaths⟩ := answers_fromExcept_bind.mp h₉
  split at h₁₀
  · next path =>
    obtain ⟨hpackage, h₁₁⟩ := answers_guard.mp h₁₀
    obtain ⟨rfl, rfl⟩ := answers_pure.mp h₁₁
    rw [← not_not.mp hpackage]
    exact ⟨_ :: time, log, remaining, status, messages, _, rfl, by simpa using hsuccess,
      List.mem_cons_of_mem _ List.mem_cons_self, hpaths⟩
  · exact absurd h₁₀ answers_throw

/-- The four calls of a new receipt, and what it takes from each of them. -/
theorem answers_new {provenance : BuildProvenance} {bench : String} {features : List String}
    {executable : PathBuf} {receipt : BuildReceipt}
    (h : Answers (BuildReceipt.new codec provenance bench features executable) t (.ok receipt)) :
    ∃ image exe own millis,
      t = [⟨.readFile executable, .ok image⟩, ⟨.currentExe, .ok exe⟩, ⟨.readFile exe, .ok own⟩,
        ⟨.nowMillis, millis⟩] ∧
      receipt = (unidentified codec provenance bench features executable (codec.hexDigest image)
        (codec.hexDigest own) millis).identified codec := by
  obtain ⟨_, rest, digest, hread, h₁, rfl⟩ := answers_bind.mp h
  obtain ⟨image, rfl, rfl⟩ := answers_cargoFileDigest.mp hread
  obtain ⟨x, rest, h₂, rfl⟩ := answers_ask_bind.mp h₁
  obtain ⟨exe, h₃, rfl⟩ := answers_orIo_bind.mp h₂
  obtain ⟨_, rest, digest, hread, h₄, rfl⟩ := answers_bind.mp h₃
  obtain ⟨own, rfl, rfl⟩ := answers_cargoFileDigest.mp hread
  obtain ⟨millis, rest, h₅, rfl⟩ := answers_ask_bind.mp h₄
  obtain ⟨rfl, rfl⟩ := answers_pure.mp h₅
  exact ⟨image, exe, own, millis, rfl, rfl⟩

/-- The executable that the receipt names was reported by Cargo for the selected package alone, and
its bytes and Benchctl's own were digested. -/
structure Built (codec : Codec) (receipt : BuildReceipt) (log : PathBuf) (t : List CargoEvent) :
    Prop where
  artifact : ∃ messages, (⟨.messagesFrom log, messages⟩ : CargoEvent) ∈ t ∧
    executables receipt.bench messages = .ok [(receipt.executable, receipt.packageId)]
  image : ∃ bytes, (⟨.readFile receipt.executable, .ok bytes⟩ : CargoEvent) ∈ t ∧
    codec.hexDigest bytes = receipt.executableSha256
  benchctl : ∃ exe bytes, (⟨.currentExe, .ok exe⟩ : CargoEvent) ∈ t ∧
    (⟨.readFile exe, .ok bytes⟩ : CargoEvent) ∈ t ∧
    codec.hexDigest bytes = receipt.benchctlExecutableSha256

/-- The one build of the receipt's benchmark, between two looks at the same clean checkout. -/
structure BuiltBetween (codec : Codec) (request : BuildRequest) (receipt : BuildReceipt)
    (t : List CargoEvent) : Prop where
  order : ∃ before log timeout status built after,
    t = before ++ ⟨.guardedCargo receipt.repository log
      (benchArguments receipt.manifestPath receipt.bench receipt.targetTriple request.features)
      timeout (stamps receipt), .ok status⟩ :: (built ++ after) ∧
    status.success = true ∧
    CheckoutSeen codec none receipt.repository receipt.lockfilePath receipt.sourceCommit
      receipt.lockfileSha256 before ∧
    Built codec receipt log built ∧ after.length = 3 ∧
    CheckoutSeen codec none receipt.repository receipt.lockfilePath receipt.sourceCommit
      receipt.lockfileSha256 after

/-- What the events of a run say about a receipt. -/
structure Certified (codec : Codec) (request : BuildRequest) (receipt : BuildReceipt)
    (t : List CargoEvent) : Prop where
  requested : receipt.bench = request.bench ∧ request.bench ≠ "" ∧ "" ∉ request.features ∧
    receipt.features = normalizeFeatures request.features
  written : receipt.version = receiptVersion ∧ receipt.sourceClean = true ∧
    receipt.profile = "bench" ∧ receipt.benchctlVersion = codec.packageVersion ∧
    receipt.identityDigest codec = receipt.buildId
  environment : ∃ names, (⟨.varsOs, names⟩ : CargoEvent) ∈ t ∧
    ∀ name ∈ names, affectsBuild name = false
  located : LocatedBy request ⟨receipt.manifestPath, receipt.repository⟩ t
  toolchain : ∃ rustc, trim rustc = receipt.rustc ∧
    ToolchainSeen receipt.repository ⟨receipt.rustupToolchain, rustc, receipt.targetTriple⟩ t
  selected : ∃ log metadata workspaceRoot package,
    (⟨.metadataFrom log, .ok metadata⟩ : CargoEvent) ∈ t ∧
    SelectedBy receipt.bench receipt.repository metadata ⟨workspaceRoot, package⟩ t ∧
    receipt.packageId = package.id.repr ∧ receipt.lockfilePath = workspaceRoot.join "Cargo.lock"
  locked : ∃ checkout, (⟨.checkout, checkout⟩ : CargoEvent) ∈ t ∧
    Tracked checkout receipt.repository receipt.lockfilePath
  build : BuiltBetween codec request receipt t

theorem LocatedBy.mono {request : BuildRequest} {located : Located} {t' : List CargoEvent}
    (h : LocatedBy request located t) (ht : t ⊆ t') : LocatedBy request located t' where
  manifest := ht h.manifest
  repository := h.repository.imp fun _ hmem => ht hmem
  unconfigured := h.unconfigured.mono ht
  tracked := h.tracked.imp fun _ hcheckout => ⟨ht hcheckout.1, hcheckout.2⟩

theorem ToolchainSeen.mono {repository : PathBuf} {toolchain : ToolchainIdentity}
    {t' : List CargoEvent} (h : ToolchainSeen repository toolchain t) (ht : t ⊆ t') :
    ToolchainSeen repository toolchain t' where
  pinned := by
    obtain ⟨contents, channel, version, e, hcontents, hchannel, he, hversion⟩ := h.pinned
    exact ⟨contents, channel, version, e, ht hcontents, hchannel, ht he, hversion⟩
  identity := h.identity.imp fun _ he => ⟨ht he.1, he.2⟩
  host := h.host

theorem SelectedBy.mono {bench : String} {repository : PathBuf} {metadata : BuildMetadata}
    {selected : SelectedPackage} {t' : List CargoEvent}
    (h : SelectedBy bench repository metadata selected t) (ht : t ⊆ t') :
    SelectedBy bench repository metadata selected t' where
  workspace := ht h.workspace
  owner := h.owner
  graph := by
    obtain ⟨checkout, resolve, hcheckout, haccepted⟩ := h.graph
    exact ⟨checkout, resolve, ht hcheckout, haccepted⟩

theorem CheckoutSeen.mono {user : Option (ℕ × ℕ)} {repository lockfile : PathBuf}
    {commit digest : String} {t' : List CargoEvent}
    (h : CheckoutSeen codec user repository lockfile commit digest t) (ht : t.Sublist t') :
    CheckoutSeen codec user repository lockfile commit digest t' := by
  obtain ⟨head, clean, text, bytes, hhead, hclean, hseen, hcommit⟩ := h
  exact ⟨head, clean, text, bytes, hhead, hclean, hseen.trans ht, hcommit⟩

/-- A receipt that was prepared is certified by its calls. -/
theorem answers_prepareReceipt {setOrder : SetOrder} {request : BuildRequest}
    {receipt : BuildReceipt}
    (h : Answers (prepareReceipt codec setOrder request) t (.ok receipt)) :
    Certified codec request receipt t := by
  obtain ⟨hrequest, h₁⟩ := answers_guard.mp h
  obtain ⟨environment, rest, _, henvironment, h₂, rfl⟩ := answers_bind.mp h₁
  obtain ⟨names, rfl, hnames⟩ := answers_rejectEnvironmentOverrides henvironment
  obtain ⟨location, rest, located, hlocate, h₃, rfl⟩ := answers_bind.mp h₂
  obtain ⟨identity, rest, toolchain, hidentify, h₄, rfl⟩ := answers_bind.mp h₃
  obtain ⟨reading, rest, resolved, hread, h₅, rfl⟩ := answers_bind.mp h₄
  obtain ⟨selection, rest, selected, hselect, h₆, rfl⟩ := answers_bind.mp h₅
  obtain ⟨recording, rest, source, hrecord, h₇, rfl⟩ := answers_bind.mp h₆
  obtain ⟨building, rest, executable, hbuild, h₈, rfl⟩ := answers_bind.mp h₇
  obtain ⟨stamping, rest, receipt', hnew, h₉, rfl⟩ := answers_bind.mp h₈
  obtain ⟨checking, rest, _, hverify, h₁₀, rfl⟩ := answers_bind.mp h₉
  obtain ⟨rfl, rfl⟩ := answers_pure.mp h₁₀
  obtain ⟨log, hmetadata⟩ := answers_readMetadata hread
  obtain ⟨hlockfile, hbefore, checkout, hcheckout, htracked⟩ := answers_recordSource hrecord
  obtain ⟨start, messagesLog, timeout, status, messages, finish, rfl, hsuccess, hmessages,
    hexecutables⟩ := answers_buildBench hbuild
  obtain ⟨image, exe, own, millis, rfl, rfl⟩ := answers_new hnew
  obtain ⟨hlength, hafter⟩ := answers_verifyCheckoutUnchanged hverify
  have hrequest : request.bench ≠ "" ∧ "" ∉ request.features := by
    simpa [String.isEmpty_iff] using hrequest
  refine ⟨⟨rfl, hrequest.1, hrequest.2, rfl⟩, ⟨rfl, rfl, rfl, rfl, rfl⟩,
    ⟨names, by simp, hnames⟩, (answers_locate hlocate).mono fun e he => by simp [he],
    ⟨toolchain.rustc, rfl, (answers_identifyToolchain hidentify).mono fun e he => by simp [he]⟩,
    ⟨log, resolved.metadata, selected.workspaceRoot, selected.package, by simp [hmetadata],
      (answers_selectPackage hselect).mono fun e he => by simp [he], rfl, hlockfile⟩,
    ⟨checkout, by simp [hcheckout], htracked⟩, ⟨?_⟩⟩
  refine ⟨[⟨.varsOs, names⟩] ++ location ++ identity ++ reading ++ selection ++ recording ++ start,
    messagesLog, timeout, status, finish ++ [⟨.readFile executable, .ok image⟩,
      ⟨.currentExe, .ok exe⟩, ⟨.readFile exe, .ok own⟩, ⟨.nowMillis, millis⟩], checking, ?_,
    hsuccess, hbefore.mono ?_, ⟨?_, ?_, ?_⟩, hlength, hafter⟩
  · simp only [List.append_assoc, List.cons_append, List.nil_append, List.append_nil]
    rfl
  · exact (List.sublist_append_right _ _).trans (List.sublist_append_left _ _)
  · exact ⟨messages, List.mem_append_left _ hmessages, hexecutables⟩
  · exact ⟨image, List.mem_append_right _ List.mem_cons_self, rfl⟩
  · exact ⟨exe, own, by simp, by simp, rfl⟩

def CargoOp.writes : CargoOp → Bool
  | .atomicWrite _ _ => true
  | _ => false

/-- The program never writes. -/
abbrev Reads (p : Cargo α) : Prop := Within (fun op => op.writes = false) p

theorem reads_fromExcept (r : Except BenchError α) : Reads (fromExcept r) := trivial

theorem reads_orIo {operation : String} {r : Except IoError α} : Reads (orIo operation r) := trivial

theorem reads_ask_bind {op : CargoOp} {f : CargoAns op → Cargo α} (hop : op.writes = false)
    (hf : ∀ x, Reads (f x)) : Reads (ask op >>= f) :=
  Within.bind (S := fun op : CargoOp => op.writes = false) (within_ask hop) hf

theorem reads_commandStdout (program : String) (arguments : List String) (operation : String) :
    Reads (commandStdout program arguments operation) := by
  apply reads_ask_bind rfl
  intro x
  apply reads_orIo.bind
  intro output
  apply (within_throw _).ite
  cases output.stdout with
  | none => exact within_throw _
  | some text => exact within_pure _

theorem reads_cargoFileDigest (path : PathBuf) (operation : String) :
    Reads (cargoFileDigest codec path operation) :=
  reads_ask_bind rfl fun _ => reads_orIo.bind fun _ => within_pure _

theorem reads_requireTrackedNow (repository path : PathBuf) (label : String) :
    Reads (requireTrackedNow repository path label) :=
  reads_ask_bind rfl fun _ => reads_fromExcept _

theorem reads_verifyTrackedConfig (repository : PathBuf) (names : List String) :
    Reads (verifyTrackedConfig repository names) := by
  induction names with
  | nil => exact within_pure _
  | cons name rest ih =>
    apply reads_ask_bind rfl
    intro x
    apply Within.ite _ ih
    exact reads_ask_bind rfl fun y => reads_orIo.bind fun output => (within_throw _).ite ih

theorem reads_rejectConfigNames (directory : PathBuf) (names : List String) :
    Reads (rejectConfigNames directory names) := by
  induction names with
  | nil => exact within_pure _
  | cons name rest ih => exact reads_ask_bind rfl fun x => (within_throw _).ite ih

theorem reads_rejectAncestors (directories : List PathBuf) :
    Reads (rejectAncestors directories) := by
  induction directories with
  | nil => exact within_pure _
  | cons directory rest ih => exact (reads_rejectConfigNames _ _).bind fun _ => ih

/-- The verification of the configuration writes nothing. -/
theorem reads_verifyCargoConfiguration (repository : PathBuf) :
    Reads (verifyCargoConfiguration repository) := by
  apply (reads_verifyTrackedConfig repository configNames).bind
  intro _
  apply reads_ask_bind rfl
  intro home
  cases home with
  | none => exact within_throw _
  | some home =>
    apply reads_ask_bind rfl
    intro configured
    apply (within_throw _).ite
    exact (reads_rejectConfigNames _ _).bind fun _ => reads_rejectAncestors _

theorem reads_locate (request : BuildRequest) : Reads (locate request) := by
  apply reads_ask_bind rfl
  intro x
  apply reads_orIo.bind
  intro manifestPath
  cases manifestPath.parent with
  | none => exact within_throw _
  | some directory =>
    apply (reads_commandStdout _ _ _).bind
    intro toplevel
    apply reads_ask_bind rfl
    intro y
    apply reads_orIo.bind
    intro repository
    apply (within_throw _).ite
    exact (reads_verifyCargoConfiguration repository).bind fun _ =>
      (reads_requireTrackedNow _ _ _).bind fun _ => within_pure _

theorem reads_identifyToolchain (repository : PathBuf) : Reads (identifyToolchain repository) := by
  have hpinned : Reads (pinnedToolchain repository) := by
    apply reads_ask_bind rfl
    intro x
    apply reads_orIo.bind
    intro contents
    split
    · exact within_pure _
    · exact within_throw _
  have hoverride (channel : String) : Reads (validateToolchainOverride channel) := by
    apply reads_ask_bind rfl
    intro value
    cases value with
    | none => exact within_pure _
    | some value => exact (within_throw _).ite (within_pure _)
  apply hpinned.bind
  intro channel
  apply (hoverride channel).bind
  intro override
  apply (reads_commandStdout _ _ _).bind
  intro version
  apply (within_throw _).ite
  apply (reads_commandStdout _ _ _).bind
  intro rustc
  cases (lines rustc).findSome? (stripPrefix "host: ") with
  | none => exact within_throw _
  | some triple => exact within_pure _

theorem reads_remainingBuildTime (started timeout : ℕ) :
    Reads (remainingBuildTime started timeout) :=
  reads_ask_bind rfl fun _ => (within_pure _).ite (within_throw _)

theorem reads_readMetadata (request : BuildRequest) (located : Located) (triple : String) :
    Reads (readMetadata request located triple) := by
  have hsignals (signals : List String) : Reads (installBuildSignalHandlers signals) := by
    induction signals with
    | nil => exact within_pure _
    | cons signal rest ih => exact reads_ask_bind rfl fun _ => reads_orIo.bind fun _ => ih
  apply (hsignals _).bind
  intro _
  apply reads_ask_bind rfl
  intro started
  apply reads_ask_bind rfl
  intro x
  apply reads_orIo.bind
  intro log
  apply (reads_remainingBuildTime _ _).bind
  intro remaining
  apply reads_ask_bind rfl
  intro y
  apply (reads_fromExcept _).bind
  intro status
  apply (within_throw _).ite
  exact reads_ask_bind rfl fun _ => reads_orIo.bind fun _ => reads_ask_bind rfl fun _ =>
    (reads_fromExcept _).bind fun _ => within_pure _

theorem reads_selectPackage (setOrder : SetOrder) (bench : String) (repository : PathBuf)
    (metadata : BuildMetadata) : Reads (selectPackage setOrder bench repository metadata) := by
  apply reads_ask_bind rfl
  intro x
  apply reads_orIo.bind
  intro workspaceRoot
  apply (within_throw _).ite
  apply (reads_requireTrackedNow _ _ _).bind
  intro _
  split
  · exact reads_ask_bind rfl fun _ => reads_orIo.bind fun _ =>
      (reads_requireTrackedNow _ _ _).bind fun _ => reads_ask_bind rfl fun _ =>
        (reads_fromExcept _).bind fun _ => within_pure _
  · exact within_throw _

theorem reads_recordSource (repository workspaceRoot : PathBuf) :
    Reads (recordSource codec repository workspaceRoot) :=
  (reads_commandStdout _ _ _).bind fun _ => (reads_commandStdout _ _ _).bind fun _ =>
    (within_throw _).ite <| (reads_requireTrackedNow _ _ _).bind fun _ =>
      (reads_cargoFileDigest _ _).bind fun _ => within_pure _

theorem reads_buildBench (request : BuildRequest) (located : Located)
    (toolchain : ToolchainIdentity) (started : ℕ) (packageId commit : String) :
    Reads (buildBench request located toolchain started packageId commit) := by
  apply reads_ask_bind rfl
  intro x
  apply reads_orIo.bind
  intro log
  apply (reads_remainingBuildTime _ _).bind
  intro remaining
  apply reads_ask_bind rfl
  intro y
  apply (reads_fromExcept _).bind
  intro status
  apply (within_throw _).ite
  refine reads_ask_bind rfl fun _ => reads_orIo.bind fun _ => reads_ask_bind rfl fun _ =>
    (reads_fromExcept _).bind fun paths => ?_
  split
  · exact (within_throw _).ite (within_pure _)
  · exact within_throw _

theorem reads_verifyCheckoutUnchanged (repository lockfile : PathBuf) (commit digest : String) :
    Reads (verifyCheckoutUnchanged codec repository commit lockfile digest) :=
  (reads_commandStdout _ _ _).bind fun _ => (within_throw _).ite <|
    (reads_commandStdout _ _ _).bind fun _ => (within_throw _).ite <|
      (reads_cargoFileDigest _ _).bind fun _ => (within_throw _).ite (within_pure _)

/-- Everything before the last write of a build only reads or builds. -/
theorem reads_prepareReceipt (setOrder : SetOrder) (request : BuildRequest) :
    Reads (prepareReceipt codec setOrder request) := by
  have hnew (provenance : BuildProvenance) (executable : PathBuf) :
      Reads (BuildReceipt.new codec provenance request.bench request.features executable) :=
    (reads_cargoFileDigest _ _).bind fun _ => reads_ask_bind rfl fun _ => reads_orIo.bind fun _ =>
      (reads_cargoFileDigest _ _).bind fun _ => reads_ask_bind rfl fun _ => within_pure _
  apply (within_throw _).ite
  apply (reads_ask_bind rfl fun _ => reads_fromExcept _).bind
  intro _
  apply (reads_locate request).bind
  intro located
  apply (reads_identifyToolchain _).bind
  intro toolchain
  apply (reads_readMetadata _ _ _).bind
  intro resolved
  apply (reads_selectPackage _ _ _ _).bind
  intro selected
  apply (reads_recordSource _ _).bind
  intro source
  apply (reads_buildBench _ _ _ _ _ _).bind
  intro executable
  apply (hnew _ _).bind
  intro receipt
  exact (reads_verifyCheckoutUnchanged _ _ _ _).bind fun _ => within_pure _

/-- At every point of every run: a receipt that has been written was written to the requested path
by the last call, after events that certify it, and its write decides the result; and only a run
that has written a receipt succeeds. -/
theorem receipt_written_last {setOrder : SetOrder} {receiptBytes : BuildReceipt → Bytes}
    {request : BuildRequest} {c : Prog CargoOp CargoAns (Except BenchError Unit) × List CargoEvent}
    (h : Reach (traceMachine CargoOp CargoAns)
      ((cargoBench codec setOrder receiptBytes request).run, []) c) :
    (∀ path bytes x, (⟨.atomicWrite path bytes, x⟩ : CargoEvent) ∈ c.2 →
      path = request.receiptPath ∧ c.1 = .ret x ∧
      ∃ receipt before, bytes = receiptBytes receipt ∧
        c.2 = before ++ [⟨.atomicWrite path bytes, x⟩] ∧
        (∀ e ∈ before, e.1.writes = false) ∧ Certified codec request receipt before) ∧
    (c.1 = .ret (.ok ()) →
      ∃ bytes, (⟨.atomicWrite request.receiptPath bytes, .ok ()⟩ : CargoEvent) ∈ c.2) := by
  rcases reach_last_call (reads_prepareReceipt setOrder request)
      (fun receipt => CargoOp.atomicWrite request.receiptPath (receiptBytes receipt))
      (fun _ x => x) h with
    ⟨hreads, hnot⟩ | ⟨before, receipt, x, hreads, hanswers, rfl⟩
  · -- nothing is written until the receipt is there
    refine ⟨fun path bytes x hmem => ?_, fun hret => absurd hret (hnot ())⟩
    cases hreads _ hmem
  · constructor
    · intro path bytes x' hmem
      cases eq_last_call (S := fun op => op.writes = false) hreads hmem Bool.false_ne_true.symm
      exact ⟨rfl, rfl, receipt, before, rfl, rfl, hreads, answers_prepareReceipt hanswers⟩
    · intro hret
      cases hret
      exact ⟨_, List.mem_append_right _ List.mem_cons_self⟩

end Stages

def sampleTarget : BuildTarget where
  name := "wake_latency"
  srcPath := ⟨true, ["r", "b.rs"]⟩
  kind := [.bench]

def samplePackage : BuildPackage where
  id := ⟨"p"⟩
  name := "p"
  source := none
  manifestPath := ⟨true, ["r", "Cargo.toml"]⟩
  targets := [sampleTarget]

def sampleMetadata : BuildMetadata where
  workspaceRoot := ⟨true, ["r"]⟩
  packages := [samplePackage]
  resolve := some ⟨[⟨⟨"p"⟩, []⟩]⟩

def sampleCheckout : Checkout where
  canonicalize path := .ok path
  lsFiles _ _ := .ok true

/-- What the commands print. -/
def samplePrinted (arguments : List String) : String :=
  if arguments.contains "--show-toplevel" then "/r\n"
  else if arguments.contains "HEAD" then "c0ffee\n"
  else if arguments = ["--version"] then "rustc 1 (x)\n"
  else if arguments = ["-vV"] then "rustc 1\nhost: t\n"
  else ""

/-- A host that answers every call as a good build needs it, and takes an empty receipt only. -/
def sampleCargo : (op : CargoOp) → Option (CargoAns op)
  | .varsOs => some ["HOME", "PATH"]
  | .varOs name => some (if name = "HOME" then some "/h" else none)
  | .canonicalize path => some (.ok { path with absolute := true })
  | .pathExists _ => some false
  | .readToString _ => some (.ok "[toolchain]\nchannel = \"1\"\n")
  | .readFile _ => some (.ok [])
  | .geteuid => some 0
  | .output _ _ arguments => some (.ok ⟨true, "exit status: 0", some (samplePrinted arguments)⟩)
  | .registerSignal _ => some (.ok ())
  | .now => some 0
  | .namedTempFile => some (.ok ⟨true, ["t"]⟩)
  | .guardedCargo _ _ _ _ _ => some (.ok ⟨some 0, none⟩)
  | .reopen _ => some (.ok ())
  | .metadataFrom _ => some (.ok sampleMetadata)
  | .messagesFrom _ => some [.ok .other,
      .ok (.compilerArtifact ⟨⟨"p"⟩, sampleTarget, some ⟨true, ["r", "b"]⟩⟩)]
  | .checkout => some sampleCheckout
  | .currentExe => some (.ok ⟨true, ["benchctl"]⟩)
  | .nowMillis => some 0
  | .atomicWrite _ bytes => if bytes = [] then some (.ok ()) else none

def sampleBuild : BuildRequest where
  manifestPath := ⟨true, ["r", "Cargo.toml"]⟩
  bench := "wake_latency"
  features := ["benchmark-only", "amd", "benchmark-only"]
  receiptPath := ⟨true, ["o"]⟩
  timeout := 5

def sampleOrder : SetOrder := ⟨id, fun _ => .refl _⟩

def sampleBuilt : BuildReceipt where
  version := receiptVersion
  buildId := "d"
  manifestPath := ⟨true, ["r", "Cargo.toml"]⟩
  repository := ⟨true, ["r"]⟩
  sourceCommit := "c0ffee"
  sourceClean := true
  lockfilePath := ⟨true, ["r", "Cargo.lock"]⟩
  lockfileSha256 := "d"
  packageId := "p"
  bench := "wake_latency"
  features := ["amd", "benchmark-only"]
  profile := "bench"
  rustc := "rustc 1\nhost: t"
  rustupToolchain := "repository-toolchain-file"
  targetTriple := "t"
  benchctlVersion := "1"
  benchctlExecutableSha256 := "d"
  executable := ⟨true, ["r", "b"]⟩
  executableSha256 := "d"
  builtUnixMillis := 0

def sampleBuildCodec : Codec where
  hexDigest _ := "d"
  requestBytes _ := []
  parseReceipt _ := .ok sampleBuilt
  identityBytes _ := []
  packageVersion := "1"

/-- The sample's Cargo has the one package that is asked for. -/
theorem sampleCargo_selectPackage :
    Yields sampleCargo (selectPackage sampleOrder "wake_latency" ⟨true, ["r"]⟩ sampleMetadata)
      ⟨⟨true, ["r"]⟩, samplePackage⟩ := by
  have hgraph : validateReachableLocalGraph sampleCheckout sampleOrder sampleMetadata.toMetadata
      samplePackage.id ⟨true, ["r"]⟩ = .ok () := by
    refine validateReachableLocalGraph_eq_ok.mpr ⟨_, rfl, fun id hid => ?_⟩
    have hid : id = ⟨"p"⟩ := by
      induction hid with
      | refl => rfl
      | tail _ hdepends ih =>
        subst ih
        obtain ⟨node, hnode, hmem⟩ := hdepends
        cases hnode
        cases hmem
    subst hid
    refine ⟨rfl, samplePackage.toPackage, rfl, fun _ => ⟨⟨_, rfl, _, rfl, rfl⟩, ?_⟩⟩
    intro target hmem
    exact ⟨_, rfl, _, by
      rw [List.mem_singleton.mp hmem]
      rfl, rfl⟩
  refine yields_bind.mpr ⟨.ok ⟨true, ["r"]⟩, yields_ask.mpr rfl, yields_bind.mpr ⟨_, rfl, ?_⟩⟩
  refine yields_bind.mpr ⟨(), rfl, yields_bind.mpr ⟨.ok ⟨true, ["r", "Cargo.toml"]⟩, rfl, ?_⟩⟩
  refine yields_bind.mpr ⟨_, rfl, yields_bind.mpr ⟨(), rfl, ?_⟩⟩
  refine yields_bind.mpr ⟨sampleCheckout, rfl, yields_bind.mpr ⟨(), ?_, rfl⟩⟩
  exact congrArg some hgraph

/-- The sample's build runs to its end. -/
theorem sampleCargo_cargoBench (receiptBytes : BuildReceipt → Bytes)
    (hbytes : receiptBytes sampleBuilt = []) :
    Yields sampleCargo (cargoBench sampleBuildCodec sampleOrder receiptBytes sampleBuild) () := by
  have hprepared : Yields sampleCargo (prepareReceipt sampleBuildCodec sampleOrder sampleBuild)
      sampleBuilt := by
    unfold prepareReceipt
    rw [if_neg (by decide)]
    refine yields_bind.mpr ⟨(), rfl, ?_⟩
    refine yields_bind.mpr ⟨⟨⟨true, ["r", "Cargo.toml"]⟩, ⟨true, ["r"]⟩⟩, rfl, ?_⟩
    refine yields_bind.mpr
      ⟨⟨"repository-toolchain-file", "rustc 1\nhost: t\n", "t"⟩, rfl, ?_⟩
    refine yields_bind.mpr ⟨⟨0, sampleMetadata⟩, rfl, ?_⟩
    exact yields_bind.mpr ⟨_, sampleCargo_selectPackage, rfl⟩
  refine yields_bind.mpr ⟨sampleBuilt, hprepared, yields_bind.mpr ⟨.ok (), yields_ask.mpr ?_, rfl⟩⟩
  rw [hbytes]
  rfl

/-- A run of that build to its end, with the receipt that it leaves. -/
theorem receipt_written_last_sample :
    ∃ t before, Reach (traceMachine CargoOp CargoAns)
        ((cargoBench sampleBuildCodec sampleOrder (fun _ => []) sampleBuild).run, [])
        (.ret (.ok ()), t) ∧
      t = before ++ [⟨.atomicWrite ⟨true, ["o"]⟩ [], .ok ()⟩] ∧
      ∃ receipt, Certified sampleBuildCodec sampleBuild receipt before := by
  obtain ⟨t, ht, -⟩ := Prog.answered_of_answer (sampleCargo_cargoBench (fun _ => []) rfl)
  have hrun := ht.reach []
  obtain ⟨hwritten, hsucceeded⟩ := receipt_written_last hrun
  obtain ⟨bytes, hmem⟩ := hsucceeded rfl
  obtain ⟨-, -, receipt, before, rfl, hbefore, -, hcertified⟩ := hwritten _ _ _ hmem
  exact ⟨t, before, hrun, hbefore, receipt, hcertified⟩

end Snoozer.Benchctl
