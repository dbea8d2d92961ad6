import Snoozer.LaunchProtocol

/-! The image that is executed is the one that was accepted, while somebody else rewrites
every file outside the state directory. -/
namespace Snoozer.Benchctl
open Interactive Fallible Protocol AcceptancePhase

structure StarterPhase where
  request : Option SupervisorRequest
  known : List (PathBuf × Bytes)
  opened : Option PathBuf

namespace StarterPhase

def initial : StarterPhase := ⟨none, [], none⟩

def learn (φ : StarterPhase) : (op : HostOp) → HostAns op → StarterPhase
  | .readFile path, .ok bytes => { φ with known := (path, bytes) :: φ.known }
  | _, _ => φ

/-- The workload gets the receipt of the request, and the image of the request is open. -/
def MayStart (φ : StarterPhase) (codec : Codec) (command : WorkloadCommand) : Prop :=
  ∃ request bytes, φ.request = some request ∧ (request.receipt, bytes) ∈ φ.known ∧
    ReadFrom codec bytes command.receipt ∧ φ.opened = some request.executable ∧
    command.operationId = request.operationId

end StarterPhase

open Classical in
/-- A supervisor looks at nothing before it has its request, and changes no file. -/
noncomputable def starterProtocol (codec : Codec) : Protocol ProcessOp ProcessAns StarterPhase where
  next φ
    | .supervisorArguments => fun (request : SupervisorRequest) =>
      some { φ with request := some request }
    | .host op => fun x =>
      if op.looks = true ∧ φ.request.isSome = true then some (φ.learn op x) else none
    | .openExecutable path => fun (x : Except IoError Unit) =>
      some (if x.isOk then { φ with opened := some path } else φ)
    | .spawnWorkload command => fun _ => if φ.MayStart codec command then some φ else none
    | .spawnSupervisor _ => fun _ => none
    | _ => fun _ => some φ

section Starter

variable {codec : Codec} {α : Type} {P : StarterPhase → Prop} {request : SupervisorRequest}

theorem starter_ofResult (r : Except BenchError α) :
    (starterProtocol codec).Obeys P (ofResult r) (fun _ => P) fun _ _ => True := by
  cases r with
  | ok a => exact obeys_pure fun _ h => h
  | error e => exact obeys_throw fun _ _ => trivial

theorem starter_ignored {op : ProcessOp} (hop : (starterProtocol codec).Ignores op) :
    (starterProtocol codec).Obeys P (ask op : Process _) (fun _ => P) fun _ _ => True :=
  obeys_ignored hop

/-- The receipt of the request was read, and its image is not open yet. -/
def StarterPhase.ReceiptRead (codec : Codec) (request : SupervisorRequest) (receipt : BuildReceipt)
    (φ : StarterPhase) : Prop :=
  φ.request = some request ∧
    ∃ bytes, (request.receipt, bytes) ∈ φ.known ∧ ReadFrom codec bytes receipt

/-- A receipt that `load_accepted_receipt` accepts has been read in this start. -/
theorem starter_loadAcceptedReceipt :
    (starterProtocol codec).Obeys (fun φ => φ.request = some request)
      (asProcess (loadAcceptedReceipt codec request.receipt))
      (fun receipt φ => φ.ReceiptRead codec request receipt) fun _ _ => True := by
  have hlook : ∀ (op : HostOp) (φ : StarterPhase) (x : HostAns op), op.looks = true →
      φ.request = some request → (starterProtocol codec).next φ (.host op) x =
        some (φ.learn op x) := fun op φ x hop hφ => if_pos ⟨hop, by rw [hφ]; rfl⟩
  have hlearn : ∀ (φ : StarterPhase) (op : HostOp) (x : HostAns op),
      (φ.learn op x).request = φ.request ∧ φ.known ⊆ (φ.learn op x).known := by
    intro φ op x
    unfold StarterPhase.learn
    split
    · exact ⟨rfl, List.subset_cons_self ..⟩
    · exact ⟨rfl, fun _ h => h⟩
  have hdigest : ∀ (path : PathBuf) (operation : String),
      Within (fun op : HostOp => op.looks = true) (fileDigest codec path operation) :=
    fun _ _ => within_call rfl fun _ => (within_ofExcept _).bind fun _ => within_pure _
  have hverify : ∀ receipt : BuildReceipt,
      Within (fun op : HostOp => op.looks = true) (receipt.verifyIdentity codec) := fun receipt =>
    .ite (within_throw _) <| .ite (within_throw _) <| .ite (within_throw _) <|
      within_call rfl fun _ => (within_ofExcept _).bind fun _ => (hdigest ..).bind fun _ =>
      .ite (within_throw _) <| .ite (within_throw _) (within_pure _)
  unfold loadAcceptedReceipt asProcess
  rw [expand_bind, expand_ask]
  apply Obeys.bind (A := fun (x : Except IoError Bytes) φ => φ.request = some request ∧
    ∀ bytes, x = .ok bytes → (request.receipt, bytes) ∈ φ.known)
  · apply obeys_ask
    intro φ x hφ
    refine ⟨_, hlook (.readFile request.receipt) φ x rfl hφ, (hlearn φ (.readFile request.receipt) x).1.trans hφ, ?_⟩
    rintro bytes rfl
    exact List.mem_cons_self ..
  rintro (e | bytes)
  · exact obeys_throw fun _ _ => trivial
  have hwithin : Within (fun op : HostOp => op.looks = true) (do
      let receipt ← parseReceipt codec "reading accepted build receipt" bytes
      receipt.verifyIdentity codec
      return receipt) :=
    (within_ofExcept _).bind fun receipt => (hverify receipt).bind fun _ => within_pure _
  have hgives : Gives (ReadFrom codec bytes) (do
      let receipt ← parseReceipt codec "reading accepted build receipt" bytes
      receipt.verifyIdentity codec
      return receipt) := gives_parseReceipt _ bytes fun receipt _ => gives_verifyIdentity receipt
  have hexpand : ∀ op (φ : StarterPhase), op.looks = true →
      (φ.request = some request ∧ (request.receipt, bytes) ∈ φ.known) →
      (starterProtocol codec).Follows (expandCall op) φ fun _ φ' =>
        φ'.request = some request ∧ (request.receipt, bytes) ∈ φ'.known := by
    rintro op φ hop ⟨hφ, hknown⟩
    have hcall : expandCall op = .perform (ProcessOp.host op) := by
      cases op <;> first | rfl | cases hop
    rw [hcall]
    apply follows_call
    intro x
    exact ⟨_, hlook op φ x hop hφ,
      follows_ret ⟨(hlearn φ op x).1.trans hφ, (hlearn φ op x).2 hknown⟩⟩
  apply ((obeys_expand_within hexpand hwithin).gives (Prog.Gives.handle hgives)).conseq
  · exact fun φ hφ => ⟨hφ.1, hφ.2 bytes rfl⟩
  · exact fun receipt φ hφ => ⟨hφ.1.1, bytes, hφ.1.2, hφ.2⟩
  · exact fun _ _ _ => trivial

/-- The descriptor that `open_verified_executable` returns is of the file it has digested. -/
theorem starter_openVerifiedExecutable (receipt : BuildReceipt) (digest : String) :
    (starterProtocol codec).Obeys (StarterPhase.ReceiptRead codec request receipt)
      (openVerifiedExecutable codec request.executable digest)
      (fun _ φ => φ.ReceiptRead codec request receipt ∧ φ.opened = some request.executable)
      fun _ _ => True := by
  apply Obeys.bind (A := fun (x : Except IoError Unit) φ => φ.ReceiptRead codec request receipt ∧
    (x.isOk = true → φ.opened = some request.executable))
  · apply obeys_ask
    intro φ x hφ
    refine ⟨_, rfl, ?_⟩
    cases x with
    | ok u => exact ⟨hφ, fun _ => rfl⟩
    | error e => exact ⟨hφ, fun h => nomatch h⟩
  rintro (e | u)
  · exact obeys_throw fun _ _ => trivial
  apply Obeys.bind (A := fun _ φ => φ.ReceiptRead codec request receipt ∧
    φ.opened = some request.executable)
  · exact obeys_pure fun φ hφ => ⟨hφ.1, hφ.2 rfl⟩
  intro _
  apply (starter_ignored fun _ _ => rfl).bind
  intro x
  apply (starter_ofResult _).bind
  intro isFile
  apply obeys_ite
  · exact fun _ => obeys_throw fun _ _ => trivial
  intro _
  apply (starter_ignored fun _ _ => rfl).bind
  intro x
  apply (starter_ofResult _).bind
  intro bytes
  apply obeys_ite
  · exact fun _ => obeys_throw fun _ _ => trivial
  intro _
  apply (starter_ignored fun _ _ => rfl).bind
  intro x
  apply (starter_ofResult _).bind
  intro _
  apply (starter_ignored fun _ _ => rfl).bind
  exact fun x => starter_ofResult _

/-- The whole supervisor obeys the protocol of the starter. -/
theorem starter_process :
    (starterProtocol codec).Obeys (· = .initial) (supervisorProcess codec) (fun _ _ => True)
      fun _ _ => True := by
  apply Obeys.bind (A := fun _ _ => True)
  · apply Obeys.attempt
    apply Obeys.bind (A := fun (request : SupervisorRequest) φ => φ.request = some request)
    · apply obeys_ask
      rintro _ request rfl
      exact ⟨_, rfl, rfl⟩
    intro request
    apply Obeys.bind (A := fun _ φ => φ.request = some request)
    · exact obeys_ite (fun _ => obeys_pure fun _ h => h) fun _ => obeys_throw fun _ _ => trivial
    intro _
    apply Obeys.bind (A := fun _ φ => φ.request = some request)
    · apply Obeys.iterate
      apply (starter_ignored fun _ _ => rfl).bind
      intro go
      apply obeys_ite
      · exact fun _ => obeys_pure fun φ hφ => ⟨fun _ => hφ, fun _ _ => hφ⟩
      intro _
      apply (starter_ignored fun _ _ => rfl).bind
      intro passed
      apply obeys_ite
      · exact fun _ => obeys_throw fun _ _ => trivial
      intro _
      apply (starter_ignored fun _ _ => rfl).bind
      intro hasParent
      apply obeys_ite
      · exact fun _ => obeys_throw fun _ _ => trivial
      intro _
      apply (starter_ignored fun _ _ => rfl).bind
      exact fun _ => obeys_pure fun φ hφ => ⟨fun _ => hφ, fun _ _ => hφ⟩
    intro _
    apply Obeys.bind (A := fun _ _ => True)
    · apply starter_loadAcceptedReceipt.bind
      intro receipt
      have hstart : (starterProtocol codec).Obeys (StarterPhase.ReceiptRead codec request receipt)
          (do
            openVerifiedExecutable codec request.executable receipt.executableSha256
            ioOutcome "starting unprivileged workload" (← ask (.spawnWorkload {
              receipt := receipt
              operationId := request.operationId
              workload := request.workload
              uid := request.uid
              gid := request.gid
              productionControl := request.productionControl }))
            ioOutcome "starting unprivileged workload" (← ask .waitWorkload))
          (fun _ _ => True) fun _ _ => True := by
        apply (starter_openVerifiedExecutable receipt _).bind
        intro _
        apply Obeys.bind (A := fun _ _ => True)
        · apply obeys_ask
          rintro φ x ⟨⟨hrequest, bytes, hknown, hread⟩, hopened⟩
          exact ⟨φ, if_pos ⟨request, bytes, hrequest, hknown, hread, hopened, rfl⟩, trivial⟩
        intro x
        apply (starter_ofResult _).bind
        intro _
        apply (starter_ignored fun _ _ => rfl).bind
        exact fun x => starter_ofResult _
      apply obeys_ite
      · intro _
        apply (starter_ignored fun _ _ => rfl).bind
        intro x
        apply (starter_ofResult _).bind
        exact fun _ => hstart
      · exact fun _ => hstart
    intro status
    apply (starter_ignored fun _ _ => rfl).bind
    intro x
    apply (starter_ofResult _).bind
    intro _
    apply Obeys.iterate
    apply (starter_ignored fun _ _ => rfl).bind
    exact fun _ => obeys_pure fun φ hφ => ⟨fun _ => hφ, fun _ _ => hφ⟩
  intro r
  exact obeys_ignored fun _ _ => rfl

end Starter

inductive LaunchParty where
  | coordinator | supervisor
  deriving DecidableEq

/-- A workload that was started, and what the open descriptor held then. -/
structure Launch where
  command : WorkloadCommand
  image : Bytes
  deriving DecidableEq

/-- `operation` is the one that the coordinator has recorded. The descriptor of an image is
the path it was opened at; what it holds is what is there. `found`, `mutated` and `executed`
are history: a journal that was found, a write to the tree, and the workloads. -/
structure LaunchWorld where
  files : PathBuf → Option Bytes
  journals : String → Option Journal
  operation : Option String
  supervisorRequest : Option SupervisorRequest
  descriptor : Option PathBuf
  found : Bool
  mutated : Bool
  executed : List Launch

namespace LaunchWorld

/-- Any files and any journals, before the run. -/
def initial (files : PathBuf → Option Bytes) (journals : String → Option Journal) :
    LaunchWorld := ⟨files, journals, none, none, none, false, false, []⟩

def put (w : LaunchWorld) (path : PathBuf) (contents : Option Bytes) : LaunchWorld :=
  { w with files := Function.update w.files path contents }

def store (w : LaunchWorld) (operationId : String) (journal : Journal) : LaunchWorld :=
  { w with
    journals := Function.update w.journals operationId (some journal)
    operation := some operationId }

def holds (w : LaunchWorld) (path : PathBuf) (bytes : Bytes) : Prop := w.files path = some bytes

end LaunchWorld

/-- Files are read, replaced and executed as they are; every other call may get any answer. -/
def launchAct : (op : ProcessOp) → LaunchWorld → ProcessAns op → LaunchWorld → Prop
  | .host (.readFile path), w, x, w' =>
    w' = w ∧ ∀ bytes, x = .ok bytes → w.files path = some bytes
  | .host (.atomicWrite path bytes), w, x, w' =>
    w' = w.put path (some bytes) ∨ x.isOk = false ∧ w' = w
  | .host (.journalExists id), w, x, w' =>
    x = (w.journals id).isSome ∧ w' = { w with found := w.found || x }
  | .host (.readJournal id), w, x, w' => w' = w ∧ ∀ j, x = .ok j → w.journals id = some j
  | .host (.writeJournal id j), w, x, w' => w' = w.store id j ∨ x.isOk = false ∧ w' = w
  | .host (.write _ _), w, _, w' => w' = { w with mutated := true }
  | .spawnSupervisor request, w, x, w' => match x with
    | .ok _ => w.supervisorRequest = none ∧ w' = { w with supervisorRequest := some request }
    | .error _ => w' = w
  | .supervisorArguments, w, x, w' => w.supervisorRequest = some x ∧ w' = w
  | .openExecutable path, w, x, w' => match x with
    | .ok _ => (w.files path).isSome ∧ w' = { w with descriptor := some path }
    | .error _ => w' = w
  | .readDescriptor, w, x, w' => w' = w ∧ ∀ bytes, x = .ok bytes →
    ∃ path, w.descriptor = some path ∧ w.files path = some bytes
  | .spawnWorkload command, w, x, w' => match x with
    | .ok _ => ∃ path image, w.descriptor = some path ∧ w.files path = some image ∧
      w' = { w with executed := w.executed ++ [⟨command, image⟩] }
    | .error _ => w' = w
  | _, w, _, w' => w' = w

/-- Everything outside the state directory may be rewritten or removed at any time. -/
def launchParties (stateRoot : PathBuf) : Parties LaunchParty ProcessOp ProcessAns LaunchWorld where
  act _ := launchAct
  env w w' := ∃ path contents, path.startsWith stateRoot = false ∧ w' = w.put path contents

/-- What a process of the launch ends with: the coordinator's result is kept. -/
abbrev LaunchResult (_ : LaunchParty) : Type := Except BenchError Unit

def launchPrograms (codec : Codec) (request : RunRequest) :
    Pool LaunchParty ProcessOp ProcessAns LaunchResult
  | .coordinator => (asProcess (coordinateRun codec request)).run
  | .supervisor => (supervisorProcess codec).run

/-- Any interleaving of a run, its supervisor and the rewriting of files. -/
abbrev LaunchRun (codec : Codec) (request : RunRequest) (w : LaunchWorld) :
    Pool LaunchParty ProcessOp ProcessAns LaunchResult × LaunchWorld → Prop :=
  PoolReach (launchParties request.stateRoot) (launchPrograms codec request, w)

/-- The workload has the image and the receipt that the journal of its operation records,
and the snapshots in the state directory are these. -/
structure Launch.Accepted (codec : Codec) (w : LaunchWorld) (launch : Launch) (j : Journal)
    (bytes : Bytes) : Prop where
  journal : w.journals launch.command.operationId = some j
  stored : w.files j.request.acceptedReceipt = some bytes
  parsed : codec.parseReceipt bytes = .ok launch.command.receipt
  identity : launch.command.receipt.PassesIdentity codec
  buildId : launch.command.receipt.identityDigest codec = launch.command.receipt.buildId
  receiptDigest : codec.hexDigest bytes = j.request.receiptDigest
  snapshot : w.files j.request.acceptedExecutable = some launch.image
  image : codec.hexDigest launch.image = launch.command.receipt.executableSha256
  executableDigest : j.request.executableDigest = codec.hexDigest launch.image

section Known

variable {codec : Codec} {stateRoot : PathBuf}

/-- The phases of the two processes. -/
abbrev LaunchPhase : LaunchParty → Type
  | .coordinator => AcceptancePhase
  | .supervisor => StarterPhase

/-- The state directory holds what the processes know of it, and once an operation is
recorded its snapshots stay. -/
structure LaunchKnown (codec : Codec) (stateRoot : PathBuf) (φ : AcceptancePhase)
    (γ : StarterPhase) (w : LaunchWorld) : Prop where
  known : ∀ path bytes, path.startsWith stateRoot = true → φ.holds path bytes → w.holds path bytes
  found : φ.found = true → w.found = true
  record : ∀ id request, φ.record = some (id, request) →
    request.acceptedReceipt.startsWith stateRoot = true ∧
    request.acceptedExecutable.startsWith stateRoot = true ∧ Sealed codec w.holds request ∧
    w.operation = some id ∧ ∃ j, w.journals id = some j ∧ j.request = request
  mutated : w.mutated = true → φ.record.isSome = true
  spawned : ∀ request, w.supervisorRequest = some request →
    φ.MayLaunch request.operationId request.receipt request.executable
  request : ∀ request, γ.request = some request → w.supervisorRequest = some request
  looked : γ.known ≠ [] → γ.request.isSome = true
  seen : ∀ path bytes, path.startsWith stateRoot = true → (path, bytes) ∈ γ.known →
    w.holds path bytes
  opened : ∀ path, γ.opened = some path → w.descriptor = some path
  executed : ∀ launch ∈ w.executed, ∃ request bytes,
    φ.record = some (launch.command.operationId, request) ∧
    w.holds request.acceptedExecutable launch.image ∧ w.holds request.acceptedReceipt bytes ∧
    ReadFrom codec bytes launch.command.receipt

/-- Before the first step nothing is known, and nothing has to hold. -/
theorem launchKnown_initial (files : PathBuf → Option Bytes) (journals : String → Option Journal) :
    LaunchKnown codec stateRoot .initial .initial (.initial files journals) where
  known _ _ _ h := nomatch h
  found h := nomatch h
  record _ _ h := nomatch h
  mutated h := nomatch h
  spawned _ h := nomatch h
  request _ h := nomatch h
  looked h := (h rfl).elim
  seen _ _ _ h := nomatch h
  opened _ h := nomatch h
  executed _ h := nomatch h

variable {φ φ' : AcceptancePhase} {γ γ' : StarterPhase} {w w' : LaunchWorld}

/-- A file of the state directory changes only before the operation is recorded. -/
theorem LaunchKnown.unspawned (h : LaunchKnown codec stateRoot φ γ w) (hφ : φ.record = none) :
    w.supervisorRequest = none ∧ γ.known = [] ∧ w.executed = [] := by
  have hspawned : w.supervisorRequest = none := by
    by_contra hne
    obtain ⟨request, hrequest⟩ := Option.ne_none_iff_exists'.mp hne
    obtain ⟨_, hrecord, _⟩ := h.spawned request hrequest
    exact nomatch hφ.symm.trans hrecord
  refine ⟨hspawned, ?_, ?_⟩
  · by_contra hne
    obtain ⟨request, hrequest⟩ := Option.isSome_iff_exists.mp (h.looked hne)
    exact nomatch hspawned.symm.trans (h.request request hrequest)
  · apply List.eq_nil_iff_forall_not_mem.mpr
    intro launch hlaunch
    obtain ⟨_, _, hrecord, _⟩ := h.executed launch hlaunch
    exact nomatch hφ.symm.trans hrecord

/-- Outside the state directory anything may happen. -/
theorem LaunchKnown.rewritten (h : LaunchKnown codec stateRoot φ γ w) {path : PathBuf}
    (hpath : path.startsWith stateRoot = false) (contents : Option Bytes) :
    LaunchKnown codec stateRoot φ γ (w.put path contents) := by
  have hkeeps : ∀ {other : PathBuf} {bytes : Bytes}, other.startsWith stateRoot = true →
      w.holds other bytes → (w.put path contents).holds other bytes := by
    intro other bytes hother hholds
    have hne : other ≠ path := by
      rintro rfl
      exact nomatch hother.symm.trans hpath
    exact (Function.update_of_ne hne ..).trans hholds
  constructor
  · exact fun other bytes hother hb => hkeeps hother (h.known other bytes hother hb)
  · exact h.found
  · intro id request hrecord
    obtain ⟨hreceipt, hexecutable, hsealed, hrest⟩ := h.record id request hrecord
    refine ⟨hreceipt, hexecutable, hsealed.mono ?_, hrest⟩
    rintro other bytes (rfl | rfl) hb
    · exact hkeeps hreceipt hb
    · exact hkeeps hexecutable hb
  · exact h.mutated
  · exact h.spawned
  · exact h.request
  · exact h.looked
  · exact fun other bytes hother hb => hkeeps hother (h.seen other bytes hother hb)
  · exact h.opened
  · intro launch hlaunch
    obtain ⟨request, bytes, hrecord, himage, hstored, hread⟩ := h.executed launch hlaunch
    obtain ⟨hreceipt, hexecutable, _⟩ := h.record _ _ hrecord
    exact ⟨request, bytes, hrecord, hkeeps hexecutable himage, hkeeps hreceipt hstored, hread⟩

/-- Replacing a file keeps what is known, as long as no operation is recorded. -/
theorem LaunchKnown.replaced (h : LaunchKnown codec stateRoot φ γ w) (hφ : φ.record = none)
    (path : PathBuf) (bytes : Bytes) {x : Except BenchError Unit}
    (hw : w' = w.put path (some bytes) ∨ x.isOk = false ∧ w' = w) :
    LaunchKnown codec stateRoot (φ.replace path bytes x) γ w' := by
  obtain ⟨hunspawned, hblind, hunexecuted⟩ := h.unspawned hφ
  have hsame : w' = { w with files := w'.files } := by
    rcases hw with rfl | ⟨_, rfl⟩
    · rfl
    · rfl
  constructor
  · intro other b hother hb
    rcases List.mem_append.mp hb with hnew | hold
    · -- A new fact is one about the file that was put there.
      split at hnew
      · next hok =>
        obtain ⟨rfl, rfl⟩ := Prod.mk.inj (List.mem_singleton.mp hnew)
        rcases hw with rfl | ⟨hfail, _⟩
        · exact Function.update_self ..
        · exact nomatch hfail.symm.trans hok
      · exact nomatch hnew
    · obtain ⟨hold, hne⟩ := List.mem_filter.mp hold
      have hne : other ≠ path := by simpa using hne
      have hholds := h.known other b hother hold
      rcases hw with rfl | ⟨_, rfl⟩
      · exact (Function.update_of_ne hne ..).trans hholds
      · exact hholds
  · rw [hsame]
    exact h.found
  · intro id request hrecord
    exact nomatch hφ.symm.trans hrecord
  · rw [hsame]
    exact h.mutated
  · intro request hrequest
    rw [hsame] at hrequest
    exact nomatch hunspawned.symm.trans hrequest
  · rw [hsame]
    exact h.request
  · exact h.looked
  · intro other b _ hb
    rw [hblind] at hb
    exact nomatch hb
  · rw [hsame]
    exact h.opened
  · intro launch hlaunch
    rw [hsame, hunexecuted] at hlaunch
    exact nomatch hlaunch

/-- The record is made over snapshots that the state directory holds. -/
theorem LaunchKnown.stored (h : LaunchKnown codec stateRoot φ γ w) {id : String} {j : Journal}
    (hmay : φ.MayRecord codec stateRoot id j.request) {x : Except BenchError Unit}
    (hw : w' = w.store id j ∨ x.isOk = false ∧ w' = w) :
    LaunchKnown codec stateRoot (if x.isOk then { φ with record := some (id, j.request) } else φ) γ
      w' := by
  have hrecordable : j.request.acceptedReceipt.startsWith stateRoot = true ∧
      j.request.acceptedExecutable.startsWith stateRoot = true ∧ Sealed codec w.holds j.request := by
    rcases hmay with hrecord | ⟨_, hreceipt, hexecutable, hsealed⟩
    · obtain ⟨hreceipt, hexecutable, hsealed, _⟩ := h.record _ _ hrecord
      exact ⟨hreceipt, hexecutable, hsealed⟩
    · refine ⟨hreceipt, hexecutable, hsealed.mono ?_⟩
      rintro path bytes (rfl | rfl) hb
      · exact h.known _ _ hreceipt hb
      · exact h.known _ _ hexecutable hb
  obtain ⟨hreceipt, hexecutable, hsealed⟩ := hrecordable
  have hsome : ∀ {id' request}, φ.record = some (id', request) → id' = id ∧ request = j.request := by
    intro id' request hrecord
    rcases hmay with hmine | ⟨hnone, _⟩
    · cases hmine.symm.trans hrecord
      exact ⟨rfl, rfl⟩
    · exact nomatch hnone.symm.trans hrecord
  cases x with
  | error e =>
    -- The journal may have been stored all the same.
    rcases hw with rfl | ⟨_, rfl⟩
    · refine ⟨h.known, h.found, fun id' request hrecord => ?_, h.mutated, h.spawned, h.request,
        h.looked, h.seen, h.opened, h.executed⟩
      obtain ⟨rfl, rfl⟩ := hsome hrecord
      exact ⟨hreceipt, hexecutable, hsealed, rfl, j, Function.update_self .., rfl⟩
    · exact h
  | ok u =>
    rcases hw with rfl | ⟨hfail, _⟩
    case inr => exact nomatch hfail
    refine ⟨h.known, h.found, fun id' request hrecord => ?_, fun _ => rfl, fun child hchild => ?_,
      h.request, h.looked, h.seen, h.opened, fun launch hlaunch => ?_⟩
    · cases hrecord
      exact ⟨hreceipt, hexecutable, hsealed, rfl, j, Function.update_self .., rfl⟩
    · obtain ⟨request, hrecord, hpaths⟩ := h.spawned child hchild
      obtain ⟨hid, rfl⟩ := hsome hrecord
      exact ⟨j.request, by rw [hid]; rfl, hpaths⟩
    · obtain ⟨request, bytes, hrecord, hrest⟩ := h.executed launch hlaunch
      obtain ⟨hid, rfl⟩ := hsome hrecord
      exact ⟨j.request, bytes, by rw [hid]; rfl, hrest⟩

/-- Knowing more of what is so. -/
theorem LaunchKnown.learned (h : LaunchKnown codec stateRoot φ γ w) {op : HostOp} {x : HostAns op}
    (hact : launchAct (.host op) w x w') (hlearn : φ.learn op x = φ' ) (hop : op.Looking) :
    LaunchKnown codec stateRoot φ' γ w' := by
  subst hlearn
  cases op with
  | readFile path =>
    obtain ⟨rfl, hread⟩ := hact
    cases x with
    | error e => exact h
    | ok bytes =>
      refine ⟨fun other b hother hb => ?_, h.found, h.record, h.mutated, h.spawned, h.request,
        h.looked, h.seen, h.opened, h.executed⟩
      rcases List.mem_cons.mp hb with hnew | hold
      · obtain ⟨rfl, rfl⟩ := Prod.mk.inj hnew
        exact hread b rfl
      · exact h.known other b hother hold
  | journalExists id =>
    obtain ⟨_, rfl⟩ := hact
    refine ⟨h.known, fun hfound => ?_, h.record, h.mutated, h.spawned, h.request, h.looked, h.seen,
      h.opened, h.executed⟩
    have hfound : (φ.found || x) = true := hfound
    change (w.found || x) = true
    rcases Bool.or_eq_true_iff.mp hfound with hold | hnew
    · rw [h.found hold, Bool.true_or]
    · rw [hnew, Bool.or_true]
  | readJournal id =>
    obtain ⟨rfl, _⟩ := hact
    exact h
  | atomicWrite path bytes => rcases hop with hop | ⟨_, hop⟩ | hop | ⟨_, hop⟩ <;> cases hop
  | write path contents => rcases hop with hop | ⟨_, hop⟩ | hop | ⟨_, hop⟩ <;> cases hop
  | writeJournal id j => rcases hop with hop | ⟨_, hop⟩ | hop | ⟨_, hop⟩ <;> cases hop
  | coordinate child => rcases hop with hop | ⟨_, hop⟩ | hop | ⟨_, hop⟩ <;> cases hop
  | _ =>
    cases hact
    exact h

/-- A step of the coordinator keeps what is known. -/
theorem LaunchKnown.coordinator (h : LaunchKnown codec stateRoot φ γ w) {op : ProcessOp}
    {x : ProcessAns op} (hn : (launchProtocol codec stateRoot).next φ op x = some φ')
    (hact : launchAct op w x w') : LaunchKnown codec stateRoot φ' γ w' := by
  have hsame : w' = w → φ' = φ → LaunchKnown codec stateRoot φ' γ w' := by
    rintro rfl rfl
    exact h
  cases op with
  | host op =>
    change (acceptanceProtocol codec stateRoot).next φ op x = some φ' at hn
    by_cases hlooking : op.Looking
    · rw [acceptance_looking hlooking] at hn
      exact h.learned hact (Option.some.inj hn) hlooking
    cases op with
    | atomicWrite path bytes =>
      simp only [acceptanceProtocol] at hn
      split at hn
      · next hrecord =>
        cases hn
        exact h.replaced hrecord path bytes hact
      · cases hn
    | writeJournal id j =>
      simp only [acceptanceProtocol] at hn
      split at hn
      · next hmay =>
        cases hn
        exact h.stored hmay hact
      · cases hn
    | write path contents =>
      simp only [acceptanceProtocol] at hn
      split at hn
      · next hrecord =>
        cases hn
        rw [show w' = { w with mutated := true } from hact]
        exact ⟨h.known, h.found, h.record, fun _ => hrecord, h.spawned, h.request, h.looked, h.seen,
          h.opened, h.executed⟩
      · cases hn
    | coordinate child =>
      simp only [acceptanceProtocol] at hn
      split at hn
      · cases hn
        exact hsame hact rfl
      · cases hn
    | lockFor wait => exact absurd (Or.inr (Or.inl ⟨wait, rfl⟩)) hlooking
    | requireInactive => exact absurd (Or.inr (Or.inr (Or.inl rfl))) hlooking
    | journalExists id => exact absurd (Or.inr (Or.inr (Or.inr ⟨id, rfl⟩))) hlooking
    | _ => exact absurd (Or.inl rfl) hlooking
  | spawnSupervisor child =>
    simp only [launchProtocol] at hn
    split at hn
    · next hmay =>
      cases hn
      cases x with
      | error e => exact hsame hact rfl
      | ok pid =>
        obtain ⟨hnone, rfl⟩ := hact
        refine ⟨h.known, h.found, h.record, h.mutated, fun request hrequest => ?_,
          fun request hrequest => ?_, h.looked, h.seen, h.opened, h.executed⟩
        · cases hrequest
          exact hmay
        · cases hnone.symm.trans (h.request request hrequest)
    · cases hn
  | supervisorArguments => cases hn
  | openExecutable path => cases hn
  | spawnWorkload command => cases hn
  | readDescriptor => exact hsame hact.1 (Option.some.inj hn).symm
  | _ => exact hsame hact (Option.some.inj hn).symm

/-- A step of the supervisor keeps what is known. -/
theorem LaunchKnown.supervisor (h : LaunchKnown codec stateRoot φ γ w) {op : ProcessOp}
    {x : ProcessAns op} (hn : (starterProtocol codec).next γ op x = some γ')
    (hact : launchAct op w x w') : LaunchKnown codec stateRoot φ γ' w' := by
  have hsame : w' = w → γ' = γ → LaunchKnown codec stateRoot φ γ' w' := by
    rintro rfl rfl
    exact h
  cases op with
  | host op =>
    simp only [starterProtocol] at hn
    split at hn
    case isFalse => cases hn
    next hlooks =>
    obtain ⟨hlooks, hrequest⟩ := hlooks
    cases hn
    cases op with
    | readFile path =>
      obtain ⟨rfl, hread⟩ := hact
      cases x with
      | error e => exact h
      | ok bytes =>
        refine ⟨h.known, h.found, h.record, h.mutated, h.spawned, h.request, fun _ => hrequest,
          fun other b hother hb => ?_, h.opened, h.executed⟩
        rcases List.mem_cons.mp hb with hnew | hold
        · obtain ⟨rfl, rfl⟩ := Prod.mk.inj hnew
          exact hread b rfl
        · exact h.seen other b hother hold
    | journalExists id =>
      obtain ⟨_, rfl⟩ := hact
      refine ⟨h.known, fun hfound => ?_, h.record, h.mutated, h.spawned, h.request, h.looked, h.seen,
        h.opened, h.executed⟩
      change (w.found || x) = true
      rw [h.found hfound, Bool.true_or]
    | readJournal id => exact hsame hact.1 rfl
    | atomicWrite path bytes => cases hlooks
    | write path contents => cases hlooks
    | writeJournal id j => cases hlooks
    | coordinate child => cases hlooks
    | lockFor wait => cases hlooks
    | requireInactive => cases hlooks
    | removeRuntime id => cases hlooks
    | _ => exact hsame hact rfl
  | supervisorArguments =>
    cases hn
    obtain ⟨hrequest, rfl⟩ := hact
    refine ⟨h.known, h.found, h.record, h.mutated, h.spawned, fun request hsome => ?_, fun _ => rfl,
      h.seen, h.opened, h.executed⟩
    cases hsome
    exact hrequest
  | openExecutable path =>
    cases hn
    cases x with
    | error e => exact hsame hact rfl
    | ok u =>
      obtain ⟨_, rfl⟩ := hact
      refine ⟨h.known, h.found, h.record, h.mutated, h.spawned, h.request, h.looked, h.seen,
        fun other hother => ?_, h.executed⟩
      exact hother
  | spawnWorkload command =>
    simp only [starterProtocol] at hn
    split at hn
    case isFalse => cases hn
    next hmay =>
    cases hn
    cases x with
    | error e => exact hsame hact rfl
    | ok u =>
      obtain ⟨path, image, hdescriptor, himage, rfl⟩ := hact
      refine ⟨h.known, h.found, h.record, h.mutated, h.spawned, h.request, h.looked, h.seen,
        h.opened, fun launch hlaunch => ?_⟩
      rcases List.mem_append.mp hlaunch with hold | hnew
      · exact h.executed launch hold
      · cases List.mem_singleton.mp hnew
        obtain ⟨child, bytes, hrequest, hknown, hread, hopened, hid⟩ := hmay
        obtain ⟨request, hrecord, hreceipt, hexecutable⟩ := h.spawned _ (h.request _ hrequest)
        obtain ⟨hlocal, _⟩ := h.record _ _ hrecord
        refine ⟨request, bytes, by rw [hid]; exact hrecord, ?_, ?_, hread⟩
        · cases hdescriptor.symm.trans (h.opened _ hopened)
          rw [← hexecutable]
          exact himage
        · rw [← hreceipt]
          exact h.seen _ _ (hreceipt ▸ hlocal) hknown
  | spawnSupervisor child => cases hn
  | readDescriptor => exact hsame hact.1 (Option.some.inj hn).symm
  | _ => exact hsame hact (Option.some.inj hn).symm

/-- What the record says of snapshots that were read. -/
theorem LaunchKnown.accepted (h : LaunchKnown codec stateRoot φ γ w) (launch : Launch)
    {request : Request} {bytes : Bytes}
    (hrecord : φ.record = some (launch.command.operationId, request))
    (himage : w.holds request.acceptedExecutable launch.image)
    (hstored : w.holds request.acceptedReceipt bytes)
    (hread : ReadFrom codec bytes launch.command.receipt) :
    w.operation = some launch.command.operationId ∧ ∃ j, launch.Accepted codec w j bytes := by
  obtain ⟨_, _, hsealed, hoperation, j, hj, rfl⟩ := h.record _ _ hrecord
  obtain ⟨⟨b, hb, hdigest⟩, ⟨b', receipt, hb', hread', hsame⟩, ⟨image, hi, hhash⟩⟩ := hsealed
  -- A file of the state directory holds one thing only.
  cases hstored.symm.trans hb
  cases hstored.symm.trans hb'
  cases himage.symm.trans hi
  have hreceipt : launch.command.receipt = receipt :=
    Except.ok.inj (hread.1.symm.trans hread'.1)
  exact ⟨hoperation, j, {
    journal := hj
    stored := hstored
    parsed := hread.1
    identity := hread.2
    buildId := hread.2.digest
    receiptDigest := hdigest
    snapshot := himage
    image := by rw [hreceipt, hsame]; exact hhash
    executableDigest := hhash.symm }⟩

end Known

section Image

variable {codec : Codec} {request : RunRequest} {files : PathBuf → Option Bytes}
  {journals : String → Option Journal}
  {c : Pool LaunchParty ProcessOp ProcessAns LaunchResult × LaunchWorld}

noncomputable def launchPartyProtocol (codec : Codec) (stateRoot : PathBuf) :
    (r : LaunchParty) → Protocol ProcessOp ProcessAns (LaunchPhase r)
  | .coordinator => launchProtocol codec stateRoot
  | .supervisor => starterProtocol codec

def startLaunchPhase : (r : LaunchParty) → LaunchPhase r
  | .coordinator => AcceptancePhase.initial
  | .supervisor => StarterPhase.initial

/-- What the result of a process says of its phase. -/
def LaunchEnds : (r : LaunchParty) → LaunchResult r → LaunchPhase r → Prop
  | .coordinator => Ends (fun _ φ => φ.record.isSome = true ∨ φ.found = true) fun _ _ => True
  | .supervisor => fun _ _ => True

theorem launch_follows (r : LaunchParty) :
    (launchPartyProtocol codec request.stateRoot r).Follows (launchPrograms codec request r)
      (startLaunchPhase r) (LaunchEnds r) := by
  cases r with
  | coordinator => exact launch_coordinateRun request
  | supervisor => exact follows_mono (starter_process .initial rfl) fun _ _ _ => trivial

/-- In every reachable state the processes have got to phases whose knowledge is true. -/
theorem launchKnown_reach (hr : LaunchRun codec request (.initial files journals) c) :
    ∃ φ γ, LaunchKnown codec request.stateRoot φ γ c.2 ∧ ∀ r, c.1 .coordinator = .ret r →
      r.isOk = true → φ.record.isSome = true ∨ φ.found = true := by
  obtain ⟨φ, hknown, hphase⟩ := hr.phases launch_follows
    (J := fun φ w => LaunchKnown codec request.stateRoot (φ .coordinator) (φ .supervisor) w)
    (launchKnown_initial files journals)
    (by
      intro r φ op x φ' w w' hknown hn hact
      cases r with
      | coordinator => exact hknown.coordinator hn hact
      | supervisor => exact hknown.supervisor hn hact)
    (by
      rintro φ w _ hknown ⟨path, contents, hpath, rfl⟩
      exact hknown.rewritten hpath contents)
  refine ⟨φ .coordinator, φ .supervisor, hknown, fun r hret hok => ?_⟩
  have hends := (hphase .coordinator).2 r hret
  cases r with
  | error e => cases hok
  | ok u => exact hends

/-- Every workload is executed from the image and with the receipt that the journal of its
operation records. As long as no workload could be so executed, the tree was not written, and
a run that has ended has failed or found the journal of an earlier one. -/
theorem accepted_image_executed (hr : LaunchRun codec request (.initial files journals) c) :
    (∀ launch ∈ c.2.executed, ∃ j bytes, launch.Accepted codec c.2 j bytes) ∧
    ((¬ ∃ (launch : Launch) (j : Journal) (bytes : Bytes),
        c.2.operation = some launch.command.operationId ∧ launch.Accepted codec c.2 j bytes) →
      c.2.mutated = false ∧
        ∀ r, c.1 .coordinator = .ret r → r.isOk = true → c.2.found = true) := by
  obtain ⟨φ, γ, hknown, hends⟩ := launchKnown_reach hr
  constructor
  · intro launch hlaunch
    obtain ⟨recorded, bytes, hrecord, himage, hstored, hread⟩ := hknown.executed launch hlaunch
    obtain ⟨_, j, hj⟩ := hknown.accepted launch hrecord himage hstored hread
    exact ⟨j, bytes, hj⟩
  intro hno
  have hunrecorded : φ.record.isSome = false := by
    by_contra hsome
    have hsome : φ.record.isSome = true := Bool.eq_true_of_not_eq_false hsome
    obtain ⟨⟨id, recorded⟩, hrecord⟩ := Option.isSome_iff_exists.mp hsome
    obtain ⟨_, _, hsealed, _⟩ := hknown.record id recorded hrecord
    obtain ⟨_, ⟨bytes, receipt, hstored, hread, _⟩, ⟨image, himage, _⟩⟩ := hsealed
    -- The workload that the record stands for.
    obtain ⟨hoperation, j, hj⟩ := hknown.accepted ⟨⟨receipt, id, [], 0, 0, false⟩, image⟩ hrecord
      himage hstored hread
    exact hno ⟨_, j, bytes, hoperation, hj⟩
  refine ⟨?_, fun r hret hok => ?_⟩
  · by_contra hmutated
    exact nomatch hunrecorded.symm.trans (hknown.mutated (by simpa using hmutated))
  · rcases hends r hret hok with hrecord | hfound
    · exact nomatch hunrecorded.symm.trans hrecord
    · exact hknown.found hfound

end Image

/-- Processes of which nothing else is asked. -/
def sampleChildren (s : HostState) : World :=
  { World.initial s with
    files := fun _ => true
    guardian := .running
    leader := .alive }

def serveLaunch (host : Host) (s : HostState) : Server ProcessOp ProcessAns LaunchWorld
  | .host (.readFile path), w => some ((w.files path).elim (.error ⟨""⟩) .ok, w)
  | .host (.atomicWrite path bytes), w => some (.ok (), w.put path (some bytes))
  | .host (.journalExists id), w =>
    some ((w.journals id).isSome, { w with found := w.found || (w.journals id).isSome })
  | .host (.readJournal id), w => some ((w.journals id).elim (.error (.state "")) .ok, w)
  | .host (.writeJournal id j), w => some (.ok (), w.store id j)
  | .host (.write _ _), w => some (.ok (), { w with mutated := true })
  | .host op, w => some ((host.serve "op" op s).1, w)
  | .spawnSupervisor request, w => if w.supervisorRequest = none then
      some (.ok 2, { w with supervisorRequest := some request })
    else none
  | .supervisorArguments, w => w.supervisorRequest.map fun request => (request, w)
  | .openExecutable path, w => if (w.files path).isSome then
      some (.ok (), { w with descriptor := some path })
    else none
  | .readDescriptor, w => (w.descriptor.bind w.files).map fun bytes => (.ok bytes, w)
  | .spawnWorkload command, w => (w.descriptor.bind w.files).map fun image =>
    (.ok (), { w with executed := w.executed ++ [⟨command, image⟩] })
  | op, w => (serveChild host "op" false .supervisor op (sampleChildren s)).map fun answer =>
    (answer.1, w)

/-- A served call is one that the launching world allows. -/
theorem serveLaunch_act {host : Host} {s : HostState} {op : ProcessOp} {w w' : LaunchWorld}
    {x : ProcessAns op} (h : serveLaunch host s op w = some (x, w')) : launchAct op w x w' := by
  have helse : ∀ (op : ProcessOp) (x : ProcessAns op),
      (serveChild host "op" false .supervisor op (sampleChildren s)).map
        (fun answer => (answer.1, w)) = some (x, w') → w' = w := by
    intro op x h
    obtain ⟨answer, _, hpair⟩ := Option.map_eq_some_iff.mp h
    cases hpair
    rfl
  cases op with
  | host op =>
    cases op with
    | readFile path =>
      cases h
      refine ⟨rfl, fun bytes hbytes => ?_⟩
      cases hfile : w.files path with
      | none =>
        rw [hfile] at hbytes
        cases hbytes
      | some contents =>
        rw [hfile] at hbytes
        cases hbytes
        rfl
    | readJournal id =>
      cases h
      refine ⟨rfl, fun j hj => ?_⟩
      cases hjournal : w.journals id with
      | none =>
        rw [hjournal] at hj
        cases hj
      | some found =>
        rw [hjournal] at hj
        cases hj
        rfl
    | atomicWrite path bytes =>
      cases h
      exact Or.inl rfl
    | writeJournal id j =>
      cases h
      exact Or.inl rfl
    | journalExists id =>
      cases h
      exact ⟨rfl, rfl⟩
    | _ =>
      cases h
      rfl
  | spawnSupervisor request =>
    simp only [serveLaunch] at h
    split at h
    · next hnone =>
      cases h
      exact ⟨hnone, rfl⟩
    · cases h
  | supervisorArguments =>
    obtain ⟨request, hrequest, hpair⟩ := Option.map_eq_some_iff.mp h
    cases hpair
    exact ⟨hrequest, rfl⟩
  | openExecutable path =>
    simp only [serveLaunch] at h
    split at h
    · next hfile =>
      cases h
      exact ⟨hfile, rfl⟩
    · cases h
  | readDescriptor =>
    obtain ⟨bytes, hbytes, hpair⟩ := Option.map_eq_some_iff.mp h
    cases hpair
    obtain ⟨path, hpath, hfile⟩ := Option.bind_eq_some_iff.mp hbytes
    refine ⟨rfl, ?_⟩
    rintro _ ⟨⟩
    exact ⟨path, hpath, hfile⟩
  | spawnWorkload command =>
    obtain ⟨image, himage, hpair⟩ := Option.map_eq_some_iff.mp h
    cases hpair
    obtain ⟨path, hpath, hfile⟩ := Option.bind_eq_some_iff.mp himage
    exact ⟨path, image, hpath, hfile, rfl⟩
  | _ => exact helse _ x h

/-- A tree that already is as the operation wants it. -/
def sampleDisabled (p : PathBuf) : Option String :=
  if p = (sampleTree.join "state2").join "disable" then some "1\n" else sampleSysfs p

def sampleLaunch (schedule : List (LaunchParty × ℕ))
    (c : Pool LaunchParty ProcessOp ProcessAns LaunchResult × LaunchWorld) :
    Pool LaunchParty ProcessOp ProcessAns LaunchResult × LaunchWorld :=
  Pool.play (fun _ => serveLaunch sampleHost (.initial sampleDisabled)) schedule c

theorem sampleLaunch_reach (schedule : List (LaunchParty × ℕ))
    (c : Pool LaunchParty ProcessOp ProcessAns LaunchResult × LaunchWorld) :
    PoolReach (launchParties sampleRequest.stateRoot) c (sampleLaunch schedule c) := by
  have hact : ∀ (r : LaunchParty) op w x w', True →
      serveLaunch sampleHost (.initial sampleDisabled) op w = some (x, w') →
      (launchParties sampleRequest.stateRoot).act r op w x w' ∧ True :=
    fun _ _ _ _ _ _ h => ⟨serveLaunch_act h, trivial⟩
  exact (Pool.play_reach (I := fun _ => True) hact schedule c.1 c.2 trivial).1

/-- The run is about to look at the tree when its executable is rewritten. -/
def sampleRewritten : Pool LaunchParty ProcessOp ProcessAns LaunchResult × LaunchWorld :=
  let accepted := sampleLaunch [(.coordinator, 60)]
    (launchPrograms (sampleCodec fun _ => []) sampleRequest,
      .initial (fun _ => some []) fun _ => none)
  sampleLaunch [(.coordinator, 31), (.supervisor, 20)]
    (accepted.1, accepted.2.put sampleReceipt.executable (some [66]))

theorem sampleRewritten_reach : LaunchRun (sampleCodec fun _ => []) sampleRequest
    (.initial (fun _ => some []) fun _ => none) sampleRewritten :=
  ((sampleLaunch_reach _ _).tail (.env ⟨_, _, by decide, rfl⟩)).trans (sampleLaunch_reach _ _)

set_option maxRecDepth 4000 in
/-- The workload still gets the image that was accepted. -/
theorem accepted_image_executed_sample :
    ∃ c launch j bytes, LaunchRun (sampleCodec fun _ => []) sampleRequest
        (.initial (fun _ => some []) fun _ => none) c ∧
      launch ∈ c.2.executed ∧ launch.Accepted (sampleCodec fun _ => []) c.2 j bytes ∧
      launch.image = [] ∧ c.2.files sampleReceipt.executable = some [66] := by
  have hexecuted : sampleRewritten.2.executed.map Launch.image = [[]] := by decide +kernel
  have hrewritten : sampleRewritten.2.files sampleReceipt.executable = some [66] := by
    decide +kernel
  obtain ⟨launch, hlaunch, himage⟩ : ∃ launch ∈ sampleRewritten.2.executed, launch.image = [] := by
    apply List.mem_map.mp
    rw [hexecuted]
    exact List.mem_singleton_self _
  obtain ⟨j, bytes, haccepted⟩ := (accepted_image_executed sampleRewritten_reach).1 launch hlaunch
  exact ⟨_, launch, j, bytes, sampleRewritten_reach, hlaunch, haccepted, himage, hrewritten⟩

end Snoozer.Benchctl
