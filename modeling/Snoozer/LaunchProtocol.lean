import Snoozer.CoordinatorProtocol

/-! What a coordinator knows of the snapshots that it accepts, and a supervisor of the
image that it starts. What a file held when it was read or written says something later
only in the state directory; every other file may have changed since. -/
namespace Snoozer.Benchctl
open Interactive Fallible Protocol

/-- The calls of `verify_identity`, with `image` in Benchctl's own executable. -/
def identityLook (exe : PathBuf) (image : Bytes) : (op : HostOp) → Option (HostAns op)
  | .currentExe => some (.ok exe)
  | .readFile path => if path = exe then some (.ok image) else none
  | _ => none

/-- `verify_identity` accepts the receipt, whatever Benchctl's executable holds then. -/
def BuildReceipt.PassesIdentity (codec : Codec) (receipt : BuildReceipt) : Prop :=
  ∃ exe image, Yields (identityLook exe image) (receipt.verifyIdentity codec) ()

variable {codec : Codec} {α : Type}

/-- A receipt that passes has its identity digest as build id. -/
theorem BuildReceipt.PassesIdentity.digest {receipt : BuildReceipt}
    (h : receipt.PassesIdentity codec) : receipt.identityDigest codec = receipt.buildId := by
  obtain ⟨exe, image, h⟩ := h
  unfold BuildReceipt.verifyIdentity at h
  split at h
  · exact (yields_throw h).elim
  split at h
  · exact (yields_throw h).elim
  split at h
  · exact (yields_throw h).elim
  obtain ⟨_, _, h⟩ := yields_bind.mp h
  obtain ⟨_, _, h⟩ := yields_bind.mp h
  obtain ⟨_, _, h⟩ := yields_bind.mp h
  split at h
  · exact (yields_throw h).elim
  split at h
  · exact (yields_throw h).elim
  · next hdigest => exact not_not.mp hdigest

/-- An answer that is an error ends the program. -/
theorem gives_io {β : Type} {R : β → Prop} (operation : String) (x : Except IoError α)
    {f : α → Bench β} (hf : ∀ a, x = .ok a → Gives R (f a)) :
    Gives R (ioResult operation x >>= f) := by
  cases x with
  | ok a => exact hf a rfl
  | error e => exact gives_throw _

/-- A receipt that `verify_identity` accepts passes. -/
theorem gives_verifyIdentity (receipt : BuildReceipt) :
    Gives (fun _ => receipt.PassesIdentity codec) (receipt.verifyIdentity codec) := by
  apply gives_ite
  · exact fun _ => gives_throw _
  intro hversion
  apply gives_ite
  · exact fun _ => gives_throw _
  intro hclean
  apply gives_ite
  · exact fun _ => gives_throw _
  intro hfields x
  apply gives_io
  intro exe _ y
  cases y with
  | error e => exact gives_throw _
  | ok image =>
    apply gives_ite
    · exact fun _ => gives_throw _
    intro hbenchctl
    apply gives_ite
    · exact fun _ => gives_throw _
    intro hdigest
    apply gives_pure
    refine ⟨exe, image, ?_⟩
    unfold BuildReceipt.verifyIdentity
    rw [if_neg hversion, if_neg hclean, if_neg hfields]
    refine yields_bind.mpr ⟨.ok exe, yields_ask.mpr rfl, yields_bind.mpr ⟨exe, rfl, ?_⟩⟩
    refine yields_bind.mpr ⟨codec.hexDigest image, ?_, ?_⟩
    · exact yields_bind.mpr ⟨.ok image, yields_ask.mpr (if_pos rfl),
        yields_bind.mpr ⟨image, rfl, yields_pure.mpr rfl⟩⟩
    · rw [if_neg hbenchctl, if_neg hdigest]
      exact yields_pure.mpr rfl

/-- What a loaded receipt was read from. -/
def ReadFrom (codec : Codec) (bytes : Bytes) (receipt : BuildReceipt) : Prop :=
  codec.parseReceipt bytes = .ok receipt ∧ receipt.PassesIdentity codec

/-- A receipt that is parsed and checked was read from the bytes. -/
theorem gives_parseReceipt (operation : String) (bytes : Bytes) {f : BuildReceipt → Bench Unit}
    (hf : ∀ receipt, codec.parseReceipt bytes = .ok receipt →
      Gives (fun _ => receipt.PassesIdentity codec) (f receipt)) :
    Gives (ReadFrom codec bytes) (do
      let receipt ← parseReceipt codec operation bytes
      f receipt
      return receipt) := by
  unfold parseReceipt
  cases hparse : codec.parseReceipt bytes with
  | error e => exact gives_throw _
  | ok receipt =>
    exact (hf receipt hparse).bind fun r hr => by
      cases r with
      | ok u => exact fun _ h => by cases h; exact ⟨hparse, hr u rfl⟩
      | error e => exact fun _ h => nomatch h

theorem gives_verify (receipt : BuildReceipt) :
    Gives (fun _ => receipt.PassesIdentity codec) (receipt.verify codec) := by
  apply Prog.Gives.bind (gives_verifyIdentity receipt)
  rintro (e | u) hr
  · exact fun _ h => nomatch h
  · have hpasses := hr u rfl
    exact gives_bind fun _ => gives_ite (fun _ => gives_throw _) fun _ => gives_pure hpasses

/-- The snapshots of a request are the ones it records, by what their files hold. -/
structure Sealed (codec : Codec) (holds : PathBuf → Bytes → Prop) (request : Request) : Prop where
  digest : ∃ bytes, holds request.acceptedReceipt bytes ∧
    codec.hexDigest bytes = request.receiptDigest
  receipt : ∃ bytes receipt, holds request.acceptedReceipt bytes ∧ ReadFrom codec bytes receipt ∧
    receipt.executableSha256 = request.executableDigest
  image : ∃ bytes, holds request.acceptedExecutable bytes ∧
    codec.hexDigest bytes = request.executableDigest

theorem Sealed.mono {holds holds' : PathBuf → Bytes → Prop} {request : Request}
    (h : Sealed codec holds request) (hle : ∀ path bytes,
      path = request.acceptedReceipt ∨ path = request.acceptedExecutable → holds path bytes →
      holds' path bytes) : Sealed codec holds' request := by
  obtain ⟨⟨b, hb, hdigest⟩, ⟨b', receipt, hb', hread, hsame⟩, ⟨image, himage, hhash⟩⟩ := h
  exact ⟨⟨b, hle _ _ (Or.inl rfl) hb, hdigest⟩, ⟨b', receipt, hle _ _ (Or.inl rfl) hb', hread, hsame⟩,
    ⟨image, hle _ _ (Or.inr rfl) himage, hhash⟩⟩

/-- `known` lists what files held when they were last read or written, `found` says that a
journal of the operation was there, and `record` is the operation's own. -/
structure AcceptancePhase where
  known : List (PathBuf × Bytes)
  found : Bool
  record : Option (String × Request)

namespace AcceptancePhase

def initial : AcceptancePhase := ⟨[], false, none⟩

def holds (φ : AcceptancePhase) (path : PathBuf) (bytes : Bytes) : Prop := (path, bytes) ∈ φ.known

def learn (φ : AcceptancePhase) : (op : HostOp) → HostAns op → AcceptancePhase
  | .readFile path, .ok bytes => { φ with known := (path, bytes) :: φ.known }
  | .journalExists _, x => { φ with found := φ.found || x }
  | _, _ => φ

/-- After a file was replaced, or may have been. -/
def replace (φ : AcceptancePhase) (path : PathBuf) (bytes : Bytes)
    (x : Except BenchError Unit) : AcceptancePhase :=
  { φ with
    known := (if x.isOk then [(path, bytes)] else []) ++
      φ.known.filter fun fact => fact.1 ≠ path }

/-- A request is recorded over sealed snapshots in the state directory. -/
def MayRecord (φ : AcceptancePhase) (codec : Codec) (stateRoot : PathBuf) (operationId : String)
    (request : Request) : Prop :=
  φ.record = some (operationId, request) ∨ φ.record = none ∧
    request.acceptedReceipt.startsWith stateRoot = true ∧
    request.acceptedExecutable.startsWith stateRoot = true ∧ Sealed codec φ.holds request

/-- A supervisor is started on the snapshots of the record. -/
def MayLaunch (φ : AcceptancePhase) (operationId : String) (receipt executable : PathBuf) : Prop :=
  ∃ request, φ.record = some (operationId, request) ∧ receipt = request.acceptedReceipt ∧
    executable = request.acceptedExecutable

/-- A process that only looks keeps its record and what it knows. -/
structure Grows (φ φ' : AcceptancePhase) : Prop where
  known : φ.known ⊆ φ'.known
  found : φ.found = true → φ'.found = true
  record : φ'.record = φ.record

theorem Grows.refl (φ : AcceptancePhase) : φ.Grows φ := ⟨fun _ h => h, fun h => h, rfl⟩

theorem grows_learn (φ : AcceptancePhase) (op : HostOp) (x : HostAns op) : φ.Grows (φ.learn op x) := by
  unfold learn
  split
  · exact ⟨List.subset_cons_self .., fun h => h, rfl⟩
  · next id found =>
    refine ⟨fun _ h => h, fun h => ?_, rfl⟩
    change (φ.found || found) = true
    rw [h, Bool.true_or]
  · exact .refl φ

end AcceptancePhase

open AcceptancePhase

open Classical in
/-- Nothing is written to the tree without a record, and no snapshot replaced under one. -/
noncomputable def acceptanceProtocol (codec : Codec) (stateRoot : PathBuf) :
    Protocol HostOp HostAns AcceptancePhase where
  next φ
    | .atomicWrite path bytes => fun x =>
      if φ.record = none then some (φ.replace path bytes x) else none
    | .writeJournal id j => fun (x : Except BenchError Unit) =>
      if φ.MayRecord codec stateRoot id j.request then
        some (if x.isOk then { φ with record := some (id, j.request) } else φ)
      else none
    | .write _ _ => fun _ => if φ.record.isSome then some φ else none
    | .coordinate request => fun _ =>
      if φ.MayLaunch request.operationId request.receipt request.executable then some φ else none
    | op => fun x => some (φ.learn op x)

section Acceptance

variable {stateRoot : PathBuf} {P : AcceptancePhase → Prop}

/-- Calls after which the process knows at least as much as before. -/
def HostOp.Looking (op : HostOp) : Prop :=
  op.quiet = true ∨ (∃ wait, op = .lockFor wait) ∨ op = .requireInactive ∨
    ∃ id, op = .journalExists id

theorem HostOp.looking_of_quiet (op : HostOp) (h : op.quiet = true) : op.Looking := Or.inl h

theorem acceptance_looking {op : HostOp} (hop : op.Looking) (φ : AcceptancePhase) (x : HostAns op) :
    (acceptanceProtocol codec stateRoot).next φ op x = some (φ.learn op x) := by
  rcases hop with hop | ⟨wait, rfl⟩ | rfl | ⟨id, rfl⟩
  · cases op <;> first | rfl | cases hop
  · rfl
  · rfl
  · rfl

/-- A part of the run that only looks keeps what knowing more keeps. -/
theorem acceptance_within (hP : ∀ φ φ', P φ → φ.Grows φ' → P φ') {p : Bench α}
    (hp : Within HostOp.Looking p) :
    (acceptanceProtocol codec stateRoot).Obeys P p (fun _ => P) fun _ _ => True := by
  apply (obeys_within _ hp).conseq (fun _ h => h) (fun _ _ h => h) fun _ _ _ => trivial
  intro op φ x hop hφ
  exact ⟨_, acceptance_looking hop φ x, hP _ _ hφ (grows_learn φ op x)⟩

/-- The phases before the operation has its record. -/
def Unrecorded (φ : AcceptancePhase) : Prop := φ.record = none

theorem acceptance_unrecorded {p : Bench α} (hp : Within HostOp.Looking p) :
    (acceptanceProtocol codec stateRoot).Obeys Unrecorded p (fun _ => Unrecorded)
      fun _ _ => True :=
  acceptance_within (fun _ _ h hg => hg.record.trans h) hp

theorem acceptance_ofExcept (r : Except BenchError α) :
    (acceptanceProtocol codec stateRoot).Obeys P (ofExcept r) (fun _ => P) fun _ _ => True := by
  cases r with
  | ok a => exact obeys_pure fun _ h => h
  | error e => exact obeys_throw fun _ _ => trivial

/-- A digest is one of something that the file held. -/
theorem acceptance_fileDigest (hP : ∀ φ φ', P φ → φ.Grows φ' → P φ') (path : PathBuf)
    (operation : String) :
    (acceptanceProtocol codec stateRoot).Obeys P (fileDigest codec path operation)
      (fun digest φ => P φ ∧ ∃ bytes, φ.holds path bytes ∧ codec.hexDigest bytes = digest)
      fun _ _ => True := by
  apply Obeys.bind (A := fun (x : Except IoError Bytes) φ => P φ ∧
    ∀ bytes, x = .ok bytes → φ.holds path bytes)
  · apply obeys_ask
    intro φ x hφ
    refine ⟨_, rfl, hP _ _ hφ (grows_learn φ _ x), ?_⟩
    rintro bytes rfl
    exact List.mem_cons_self ..
  rintro (e | bytes)
  · exact obeys_throw fun _ _ => trivial
  · exact obeys_pure fun φ hφ => ⟨hφ.1, bytes, hφ.2 bytes rfl, rfl⟩

/-- A receipt that was loaded is that of bytes that are held. -/
theorem acceptance_loadReceipt (hP : ∀ φ φ', P φ → φ.Grows φ' → P φ') (path : PathBuf) :
    (acceptanceProtocol codec stateRoot).Obeys P (loadReceipt codec path)
      (fun receipt φ => P φ ∧ ∃ bytes, φ.holds path bytes ∧ ReadFrom codec bytes receipt)
      fun _ _ => True := by
  apply Obeys.bind (A := fun (x : Except IoError Bytes) φ => P φ ∧
    ∀ bytes, x = .ok bytes → φ.holds path bytes)
  · apply obeys_ask
    intro φ x hφ
    refine ⟨_, rfl, hP _ _ hφ (grows_learn φ _ x), ?_⟩
    rintro bytes rfl
    exact List.mem_cons_self ..
  rintro (e | bytes)
  · exact obeys_throw fun _ _ => trivial
  have hwithin : Within HostOp.Looking (do
      let receipt ← parseReceipt codec "reading build receipt" bytes
      receipt.verify codec
      return receipt) :=
    (within_ofExcept _).bind fun receipt => (Within.bind
      (within_verifyIdentity HostOp.looking_of_quiet receipt) fun _ =>
        (within_fileDigest HostOp.looking_of_quiet ..).bind fun _ =>
        .ite (within_throw _) (within_pure _)).bind fun _ => within_pure _
  have hgives : Gives (ReadFrom codec bytes) (do
      let receipt ← parseReceipt codec "reading build receipt" bytes
      receipt.verify codec
      return receipt) := gives_parseReceipt _ bytes fun receipt _ => gives_verify receipt
  have hkeeps : ∀ φ φ' : AcceptancePhase, P φ ∧ φ.holds path bytes → φ.Grows φ' →
      P φ' ∧ φ'.holds path bytes := fun φ φ' h hg => ⟨hP _ _ h.1 hg, hg.known h.2⟩
  apply ((acceptance_within hkeeps hwithin).gives hgives).conseq
  · exact fun φ hφ => ⟨hφ.1, hφ.2 bytes rfl⟩
  · exact fun receipt φ hφ => ⟨hφ.1.1, bytes, hφ.1.2, hφ.2⟩
  · exact fun _ _ h => h

/-- The copy of the receipt was checked. -/
structure ReceiptCopied (codec : Codec) (request : Request) (φ : AcceptancePhase) : Prop where
  record : φ.record = none
  digest : ∃ bytes, φ.holds request.acceptedReceipt bytes ∧
    codec.hexDigest bytes = request.receiptDigest
  receipt : ∃ bytes receipt, φ.holds request.acceptedReceipt bytes ∧ ReadFrom codec bytes receipt ∧
    receipt.executableSha256 = request.executableDigest

theorem ReceiptCopied.grows {request : Request} {φ φ' : AcceptancePhase}
    (h : ReceiptCopied codec request φ) (hg : φ.Grows φ') : ReceiptCopied codec request φ' := by
  obtain ⟨hrecord, ⟨b, hb, hdigest⟩, ⟨b', receipt, hb', hread⟩⟩ := h
  exact ⟨hg.record.trans hrecord, ⟨b, hg.known hb, hdigest⟩, ⟨b', receipt, hg.known hb', hread⟩⟩

theorem AcceptancePhase.holds_replace {φ : AcceptancePhase} {path other : PathBuf} {b bytes : Bytes}
    {x : Except BenchError Unit} (hne : other ≠ path) (h : φ.holds other b) :
    (φ.replace path bytes x).holds other b :=
  List.mem_append.mpr (Or.inr (List.mem_filter.mpr ⟨h, by simpa using hne⟩))

theorem acceptance_atomicWrite (path : PathBuf) (bytes : Bytes)
    (hP : ∀ φ x, P φ → φ.record = none ∧ P (φ.replace path bytes x)) :
    (acceptanceProtocol codec stateRoot).Obeys P (ask (.atomicWrite path bytes) : Bench _)
      (fun _ => P) fun _ _ => True := by
  apply obeys_ask
  intro φ x hφ
  exact ⟨_, if_pos (hP φ x hφ).1, (hP φ x hφ).2⟩

/-- Both snapshots are in place and sealed before anything is recorded. -/
theorem acceptance_acceptSnapshots {accepted : Acceptance}
    (hne : accepted.recorded.acceptedReceipt ≠ accepted.recorded.acceptedExecutable)
    (hdigest : accepted.recorded.executableDigest = accepted.receipt.executableSha256) :
    (acceptanceProtocol codec stateRoot).Obeys Unrecorded (acceptSnapshots codec accepted)
      (fun _ φ => Unrecorded φ ∧ Sealed codec φ.holds accepted.recorded) fun _ _ => True := by
  have hunrecorded : ∀ φ φ', Unrecorded φ → φ.Grows φ' → Unrecorded φ' :=
    fun _ _ h hg => hg.record.trans h
  apply (acceptance_unrecorded (within_ask (Or.inl rfl))).bind
  intro x
  apply (acceptance_ofExcept _).bind
  intro receiptBytes
  apply (acceptance_atomicWrite _ _ fun φ x hφ => ⟨hφ, hφ⟩).bind
  intro x
  apply (acceptance_ofExcept _).bind
  intro _
  apply (acceptance_fileDigest hunrecorded _ _).bind
  intro copyDigest
  apply obeys_ite
  · exact fun _ => obeys_throw fun _ _ => trivial
  intro hcopy
  apply (acceptance_loadReceipt (fun φ φ' h hg => ⟨hunrecorded φ φ' h.1 hg,
    h.2.imp fun b hb => ⟨hg.known hb.1, hb.2⟩⟩) _).bind
  intro copy
  apply obeys_ite
  · exact fun _ => obeys_throw fun _ _ => trivial
  intro hsame
  have hgrows : ∀ φ φ', ReceiptCopied codec accepted.recorded φ → φ.Grows φ' →
      ReceiptCopied codec accepted.recorded φ' := fun _ _ h hg => h.grows hg
  apply Obeys.bind (A := fun _ => ReceiptCopied codec accepted.recorded)
  · apply (acceptance_within hgrows (within_ask (Or.inl rfl))).conseq _ (fun _ _ h => h)
      fun _ _ h => h
    rintro φ ⟨⟨hrecord, b, hb, hhash⟩, b', hb', hread⟩
    refine ⟨hrecord, ⟨b, hb, hhash.trans (not_not.mp hcopy)⟩, b', copy, hb', hread, ?_⟩
    rw [not_not.mp hsame, hdigest]
  intro x
  apply (acceptance_ofExcept _).bind
  intro executableBytes
  have hkeeps : ∀ φ x, ReceiptCopied codec accepted.recorded φ → φ.record = none ∧
      ReceiptCopied codec accepted.recorded
        (φ.replace accepted.recorded.acceptedExecutable executableBytes x) := by
    rintro φ x ⟨hrecord, ⟨b, hb, hhash⟩, b', receipt, hb', hread⟩
    exact ⟨hrecord, hrecord, ⟨b, holds_replace hne hb, hhash⟩, b', receipt,
      holds_replace hne hb', hread⟩
  apply (acceptance_atomicWrite _ _ hkeeps).bind
  intro x
  apply (acceptance_ofExcept _).bind
  intro _
  apply (acceptance_within hgrows (within_ask (Or.inl rfl))).bind
  intro x
  apply (acceptance_ofExcept _).bind
  intro _
  apply (acceptance_fileDigest hgrows _ _).bind
  intro digest
  apply obeys_ite
  · exact fun _ => obeys_throw fun _ _ => trivial
  intro himage
  apply obeys_pure
  rintro φ ⟨hφ, image, hholds, hhash⟩
  exact ⟨hφ.record, hφ.digest, hφ.receipt, image, hholds,
    (hhash.trans (not_not.mp himage)).trans hdigest.symm⟩

/-- What follows the record of an operation: looking, writing the tree, further records of
the same request and the supervision of its snapshots. -/
def HostOp.Recorded (operationId : String) (request : Request) : HostOp → Prop
  | .writeJournal id j => id = operationId ∧ j.request = request
  | .write _ _ => True
  | .coordinate child => child.operationId = operationId ∧
    child.receipt = request.acceptedReceipt ∧ child.executable = request.acceptedExecutable
  | .atomicWrite _ _ => False
  | _ => True

theorem permits_recorded (id : String) (request : Request) :
    Permits codec (HostOp.Recorded id request) id request where
  quiet op h := by cases op <;> trivial
  write _ _ := trivial
  record _ h _ := ⟨rfl, h⟩

/-- Calls about the recorded operation keep the record. -/
theorem acceptance_recorded (id : String) (request : Request) {p : Bench α}
    (hp : Within (HostOp.Recorded id request) p) :
    (acceptanceProtocol codec stateRoot).Obeys (fun φ => φ.record = some (id, request)) p
      (fun _ φ => φ.record = some (id, request)) fun _ φ => φ.record = some (id, request) := by
  apply obeys_within _ hp
  intro op φ x hop hφ
  cases op with
  | atomicWrite path bytes => exact hop.elim
  | write path contents =>
    refine ⟨φ, if_pos ?_, hφ⟩
    rw [hφ]
    rfl
  | coordinate child => exact ⟨φ, if_pos ⟨request, hop.1 ▸ hφ, hop.2⟩, hφ⟩
  | writeJournal id' j =>
    obtain ⟨rfl, hrequest⟩ := hop
    refine ⟨_, if_pos (Or.inl (hrequest ▸ hφ)), ?_⟩
    split
    · rw [hrequest]
    · exact hφ
  | _ => exact ⟨_, rfl, (grows_learn φ _ x).record.trans hφ⟩

/-- The supervision calls for the recorded operation only. -/
theorem within_superviseRecorded (request : RunRequest) (accepted : Acceptance) (watch : Bool)
    (coordinator : Actor) {journal : Journal} (hid : journal.operationId = accepted.operationId)
    (hrequest : journal.request = accepted.recorded) :
    Within (HostOp.Recorded accepted.operationId accepted.recorded)
      (superviseRun codec request accepted watch coordinator journal) := by
  have h : Permits codec (HostOp.Recorded accepted.operationId accepted.recorded) accepted.operationId
      journal.request := hrequest ▸ permits_recorded _ _
  refine within_transition h.quiet fun applied => ?_
  have happlied := h.push .applied coordinator applied
  refine happlied.store.bind fun _ => within_transition h.quiet fun started => ?_
  have hstarted := happlied.push .workloadStarted coordinator started
  refine hstarted.store.bind fun _ => within_call ⟨rfl, rfl, rfl⟩ fun result => ?_
  rcases result with error | outcome
  · refine hstarted.reconcileRuntimeOutcome fun j' hj' => ?_
    have hj : Permits codec (HostOp.Recorded accepted.operationId accepted.recorded)
        accepted.operationId j'.request := hj' ▸ hstarted
    refine within_actorTransition h.quiet fun a millis => ?_
    exact (hj.push .recoverable a millis).store.bind fun _ => within_throw _
  · apply Permits.finishRun
    change Permits codec _ journal.operationId journal.request
    rw [hid]
    exact h

/-- What `coordinate_run` accepts: copies in the state directory, and the receipt's digest. -/
structure Acceptance.Local (accepted : Acceptance) (stateRoot : PathBuf) : Prop where
  receipt : accepted.recorded.acceptedReceipt =
    stateRoot.join (accepted.operationId ++ ".receipt")
  executable : accepted.recorded.acceptedExecutable =
    stateRoot.join (accepted.operationId ++ ".executable")
  digest : accepted.recorded.executableDigest = accepted.receipt.executableSha256

theorem startsWith_join (path : PathBuf) (name : String) :
    (path.join name).startsWith path = true := by
  have hprefix : path.components.isPrefixOf (path.components ++ [name]) = true :=
    List.isPrefixOf_iff_prefix.mpr (List.prefix_append ..)
  simp only [PathBuf.startsWith, PathBuf.join, hprefix, beq_self_eq_true, Bool.and_self]

theorem Acceptance.Local.apart {accepted : Acceptance} (h : accepted.Local stateRoot) :
    accepted.recorded.acceptedReceipt ≠ accepted.recorded.acceptedExecutable := by
  rw [h.receipt, h.executable]
  intro heq
  have hcomponents := List.append_cancel_left (congrArg PathBuf.components heq)
  have hname := congrArg String.toList (List.head_eq_of_cons_eq hcomponents)
  simp only [String.toList_append] at hname
  have hsuffix := List.append_cancel_left hname
  exact absurd hsuffix (by decide)

/-- A run that is carried out is recorded. -/
theorem acceptance_executeRun (request : RunRequest) {accepted : Acceptance}
    (haccepted : accepted.Local stateRoot) :
    (acceptanceProtocol codec stateRoot).Obeys Unrecorded (executeRun codec request accepted)
      (fun _ φ => φ.record.isSome = true) fun _ _ => True := by
  have hquiet := HostOp.looking_of_quiet
  have hgrows : ∀ φ φ', (Unrecorded φ ∧ Sealed codec φ.holds accepted.recorded) → φ.Grows φ' →
      Unrecorded φ' ∧ Sealed codec φ'.holds accepted.recorded := fun φ φ' h hg =>
    ⟨hg.record.trans h.1, h.2.mono fun _ _ _ hb => hg.known hb⟩
  apply (acceptance_unrecorded (within_requireNoUnfinishedJournal hquiet)).bind
  intro _
  apply (acceptance_unrecorded (within_ask (Or.inl rfl))).bind
  intro x
  apply (acceptance_ofExcept _).bind
  intro watch
  apply (acceptance_acceptSnapshots haccepted.apart haccepted.digest).bind
  intro _
  apply (acceptance_within hgrows (within_ask (Or.inl rfl))).bind
  intro x
  apply (acceptance_ofExcept _).bind
  intro _
  apply (acceptance_within hgrows (within_ask (Or.inl rfl))).bind
  intro coordinator
  apply (acceptance_within hgrows (within_readBootId hquiet)).bind
  intro bootId
  apply Obeys.bind (A := fun (j : Journal) φ =>
    (Unrecorded φ ∧ Sealed codec φ.holds accepted.recorded) ∧
      j.operationId = accepted.operationId ∧ j.request = accepted.recorded)
  · apply (acceptance_within hgrows (within_ask (Or.inl rfl))).bind
    exact fun millis => obeys_pure fun φ hφ => ⟨hφ, rfl, rfl⟩
  intro j
  apply obeys_of_phase
  rintro φ₀ ⟨hφ₀, hid, hrequest⟩
  apply Obeys.bind (A := fun _ φ => Unrecorded φ ∧ Sealed codec φ.holds accepted.recorded)
  · exact (acceptance_within hgrows (within_inventory hquiet ..)).conseq
      (fun φ hφ => hφ ▸ hφ₀) (fun _ _ h => h) fun _ _ h => h
  intro entries
  -- The record is made over the snapshots that were checked.
  apply Obeys.bind (A := fun _ φ => φ.record = some (accepted.operationId, accepted.recorded))
  · apply (acceptance_ofExcept _).bind
    intro _
    apply Obeys.bind (A := fun (x : Except BenchError Unit) φ =>
      x.isOk = true → φ.record = some (accepted.operationId, accepted.recorded))
    · apply obeys_ask
      rintro φ x ⟨hrecord, hsealed⟩
      have hmay : φ.MayRecord codec stateRoot accepted.operationId j.request := by
        rw [hrequest]
        refine Or.inr ⟨hrecord, ?_, ?_, hsealed⟩
        · rw [haccepted.receipt]
          exact startsWith_join ..
        · rw [haccepted.executable]
          exact startsWith_join ..
      refine ⟨_, if_pos hmay, fun hx => ?_⟩
      rw [if_pos hx, hrequest]
    rintro (e | u)
    · exact obeys_throw fun _ _ => trivial
    · exact obeys_pure fun _ h => h rfl
  intro _
  have hpermits : ∀ es, Permits codec (HostOp.Recorded accepted.operationId accepted.recorded)
      accepted.operationId ({ j with entries := es } : Journal).request :=
    fun _ => hrequest ▸ permits_recorded _ _
  apply (acceptance_recorded _ _ ((hpermits []).apply request.sysfsRoot entries).attempt).conseq
    (fun _ h => h) (fun _ _ h => h) (fun _ _ _ => trivial) |>.bind
  rintro (error | u)
  · apply (acceptance_recorded _ _ ((hpermits entries).restore _).attempt).conseq
      (fun _ h => h) (fun _ _ h => h) (fun _ _ _ => trivial) |>.bind
    rintro (restoreError | u)
    · exact obeys_throw fun _ _ => trivial
    · exact obeys_throw fun _ _ => trivial
  · have hrun : Within (HostOp.Recorded accepted.operationId accepted.recorded) (superviseRun codec
        request accepted watch coordinator { j with entries := entries }) :=
      within_superviseRecorded request accepted watch coordinator hid hrequest
    exact (acceptance_recorded _ _ hrun).conseq (fun _ h => h) (fun _ φ h => by rw [h]; rfl)
      fun _ _ _ => trivial

/-- A run that succeeds has recorded its operation, or found the record of an earlier one. -/
theorem acceptance_coordinateRun (request : RunRequest) :
    (acceptanceProtocol codec request.stateRoot).Obeys (· = .initial) (coordinateRun codec request)
      (fun _ φ => φ.record.isSome = true ∨ φ.found = true) fun _ _ => True := by
  have hquiet := HostOp.looking_of_quiet
  apply Obeys.bind (A := fun _ => Unrecorded)
  · apply obeys_ite
    · exact fun _ => obeys_throw fun _ _ => trivial
    · exact fun _ => obeys_ite (fun _ => obeys_throw fun _ _ => trivial)
        fun _ => obeys_pure fun φ h => h ▸ rfl
  intro cpus
  apply Obeys.bind (A := fun accepted φ => Unrecorded φ ∧ accepted.Local request.stateRoot)
  · have henter := within_enterStateDirectory hquiet (fun wait => Or.inr (Or.inl ⟨wait, rfl⟩))
      (Or.inr (Or.inr (Or.inl rfl))) false
    apply (acceptance_unrecorded henter).bind
    intro _
    apply (acceptance_unrecorded (within_ask (Or.inl rfl))).bind
    intro x
    apply (acceptance_ofExcept _).bind
    intro workloadActor
    apply (acceptance_unrecorded (within_loadReceipt hquiet _)).bind
    intro receipt
    apply (acceptance_unrecorded (within_ask (Or.inl rfl))).bind
    intro x
    apply (acceptance_ofExcept _).bind
    intro _
    apply (acceptance_unrecorded (within_fileDigest hquiet _ _)).bind
    intro receiptHash
    apply Obeys.bind (A := fun _ => Unrecorded)
    · cases request.operationId with
      | none => exact acceptance_unrecorded (within_ask (Or.inl rfl))
      | some id => exact obeys_pure fun _ h => h
    intro operationId
    apply Obeys.bind (A := fun _ => Unrecorded)
    · exact obeys_ite (fun _ => obeys_pure fun _ h => h) fun _ => obeys_throw fun _ _ => trivial
    intro _
    exact obeys_pure fun φ hφ => ⟨hφ, rfl, rfl, rfl⟩
  intro accepted
  apply obeys_of_phase
  rintro φ₀ ⟨hφ₀, hlocal⟩
  apply Obeys.bind (A := fun (x : Bool) φ => Unrecorded φ ∧ (x = true → φ.found = true))
  · apply obeys_ask
    rintro φ x rfl
    refine ⟨_, rfl, (grows_learn φ _ x).record.trans hφ₀, ?_⟩
    rintro rfl
    exact Bool.or_true _
  intro x
  apply obeys_ite
  · intro hx
    have hfound : ∀ φ φ' : AcceptancePhase, φ.found = true → φ.Grows φ' → φ'.found = true :=
      fun _ _ h hg => hg.found h
    exact (acceptance_within hfound (within_replayJournal hquiet accepted)).conseq
      (fun φ h => h.2 hx) (fun _ _ h => Or.inr h) fun _ _ h => h
  · intro _
    exact (acceptance_executeRun _ hlocal).conseq (fun φ h => h.1) (fun _ _ h => Or.inl h)
      fun _ _ h => h

end Acceptance

/-- Calls that neither start a process nor touch the host. -/
def ProcessOp.background : ProcessOp → Bool
  | .host (.readStatus _) => true
  | .host .currentExe => true
  | .host _ => false
  | .spawnSupervisor _ => false
  | .supervisorArguments => false
  | .openExecutable _ => false
  | .spawnWorkload _ => false
  | _ => true

section Background

variable {T : ProcessOp → Prop}

theorem makes_ofResult (r : Except BenchError α) : Makes T (ofResult r) := trivial

theorem makes_call {op : ProcessOp} {f : ProcessAns op → Process α} (hop : T op)
    (hf : ∀ x, Makes T (f x)) : Makes T (ask op >>= f) :=
  (makes_ask hop).bind hf

variable (hT : ∀ op : ProcessOp, op.background = true → T op)

include hT

/-- The termination of a group makes only calls of the supervision. -/
theorem makes_terminateGroup (reapLeader : Bool) : Makes T (terminateGroup reapLeader) := by
  have hsignal : ∀ signal, Makes T (signalGroup signal) := by
    intro signal
    apply makes_call (hT _ rfl)
    rintro (error | u)
    · cases error with
      | esrch => exact makes_pure _
      | other text => exact makes_throw _
    · exact makes_pure _
  have hempty : Makes T groupIsEmpty := by
    apply makes_call (hT _ rfl)
    rintro (error | u)
    · cases error with
      | esrch => exact makes_pure _
      | other text => exact makes_throw _
    · exact makes_pure _
  have hawait : ∀ limit, Makes T (awaitEmpty reapLeader limit) := by
    intro limit
    have hround : Makes T (do
        if ← groupIsEmpty then
          return some true
        else
          ask ProcessOp.sleep
          return none) :=
      hempty.bind fun _ => .ite (makes_pure _) (makes_call (hT _ rfl) fun _ => makes_pure _)
    apply Makes.iterate
    apply makes_call (hT _ rfl)
    intro passed
    apply Makes.ite (makes_pure _)
    apply Makes.ite
    · exact makes_call (hT _ rfl) fun _ => (makes_ofResult _).bind fun _ => hround
    · exact hround
  apply (hsignal _).bind
  intro _
  apply (hawait _).bind
  intro empty
  apply Makes.ite (makes_pure _)
  apply (hsignal _).bind
  intro _
  apply (hawait _).bind
  exact fun _ => .ite (makes_pure _) (makes_throw _)

/-- So does the wait for the ready file. -/
theorem makes_waitForReady : Makes T waitForReady := by
  apply Makes.iterate
  apply makes_call (hT _ rfl)
  intro ready
  apply Makes.ite (makes_pure _)
  apply makes_call (hT _ rfl)
  intro x
  apply (makes_ofResult _).bind
  rintro (_ | status)
  · apply makes_call (hT _ rfl)
    intro x
    apply (makes_ofResult _).bind
    rintro (_ | status)
    · apply makes_call (hT _ rfl)
      intro passed
      apply Makes.ite
      · exact (makes_terminateGroup hT true).bind fun _ => makes_throw _
      · exact makes_call (hT _ rfl) fun _ => makes_pure _
    · exact makes_throw _
  · exact (makes_terminateGroup hT true).bind fun _ => makes_throw _

/-- So does the wait for the outcome. -/
theorem makes_awaitOutcome (id : String) (timeout : ℕ) : Makes T (awaitOutcome id timeout) := by
  apply Makes.iterate
  apply makes_call (hT _ rfl)
  intro x
  apply (makes_ofResult _).bind
  rintro (_ | status)
  · apply makes_call (hT _ rfl)
    intro cancelled
    apply Makes.ite (makes_pure _)
    apply makes_call (hT _ rfl)
    intro passed
    apply Makes.ite (makes_pure _)
    apply makes_call (hT _ rfl)
    intro x
    apply (makes_ofResult _).bind
    rintro (_ | status)
    · apply makes_call (hT _ rfl)
      intro x
      apply (makes_ofResult _).bind
      rintro (_ | status)
      · exact makes_call (hT _ rfl) fun _ => makes_pure _
      · exact (makes_terminateGroup hT false).bind fun _ => makes_throw _
    · exact (makes_terminateGroup hT true).bind fun _ => makes_throw _
  · exact makes_pure _

/-- So does the drain of the workload. -/
theorem makes_drainWorkload (outcome : Outcome) : Makes T (drainWorkload outcome) := by
  apply makes_call (hT _ rfl)
  intro x
  apply (makes_ofResult _).bind
  intro _
  apply Makes.bind
  · apply Makes.iterate
    apply makes_call (hT _ rfl)
    intro drained
    apply Makes.ite (makes_pure _)
    apply makes_call (hT _ rfl)
    intro x
    apply (makes_ofResult _).bind
    intro _
    apply makes_call (hT _ rfl)
    intro x
    apply (makes_ofResult _).bind
    rintro (_ | status)
    · apply makes_call (hT _ rfl)
      intro passed
      exact .ite (makes_throw _) (makes_call (hT _ rfl) fun _ => makes_pure _)
    · exact makes_throw _
  intro _
  apply makes_call (hT _ rfl)
  intro x
  apply (makes_ofResult _).bind
  intro guardianStatus
  apply Makes.ite (makes_throw _)
  apply makes_call (hT _ rfl)
  intro x
  apply (makes_ofResult _).bind
  exact fun _ => .ite (makes_throw _) (makes_pure _)

/-- All that `coordinate` does besides is to start the supervisor of its request. -/
theorem makes_coordinate {request : CoordinateRequest}
    (hspawn : ∀ child : SupervisorRequest, child.operationId = request.operationId →
      child.receipt = request.receipt → child.executable = request.executable →
      T (.spawnSupervisor child)) : Makes T (Supervision.coordinate request) := by
  apply makes_call (hT _ rfl)
  intro x
  apply (makes_ofResult _).bind
  intro _
  apply makes_call (hT _ rfl)
  intro coordinatorPid
  apply makes_call (hT _ rfl)
  intro x
  apply (makes_ofResult _).bind
  intro _
  apply makes_call (hspawn _ rfl rfl rfl)
  intro x
  apply (makes_ofResult _).bind
  intro pid
  apply Makes.bind (.ite (makes_pure _) (makes_throw _))
  intro _
  apply makes_call (hT _ rfl)
  rintro (error | u)
  · exact (makes_terminateGroup hT true).bind fun _ => makes_throw _
  apply (makes_waitForReady hT).bind
  intro _
  apply makes_call (hT _ rfl)
  intro x
  apply (makes_ofResult _).bind
  intro _
  apply makes_call (hT _ rfl)
  intro x
  apply (makes_ofResult _).bind
  intro _
  apply (makes_awaitOutcome hT _ _).bind
  intro outcome
  apply makes_call (hT _ rfl)
  intro x
  apply (makes_ofResult _).bind
  intro _
  apply makes_call (hT _ rfl)
  intro x
  apply (makes_ofResult _).bind
  intro hold
  apply Makes.ite
  · exact Makes.iterate (makes_call (hT _ rfl) fun _ => makes_pure _)
  · exact makes_drainWorkload hT outcome

/-- So does the check that the group is inactive. -/
theorem makes_requireInactive : Makes T requireInactive := by
  apply makes_call (hT _ rfl)
  intro x
  apply (makes_ofResult _).bind
  intro _
  apply Makes.iterate
  apply makes_call (hT _ rfl)
  rintro (e | u)
  · cases e with
    | wouldBlock =>
      apply makes_call (hT _ rfl)
      intro passed
      exact .ite (makes_throw _) (makes_call (hT _ rfl) fun _ => makes_pure _)
    | error source => exact makes_throw _
  · exact makes_pure _

end Background

open Classical in
/-- The same for a coordinator's process, which starts supervisors itself. -/
noncomputable def launchProtocol (codec : Codec) (stateRoot : PathBuf) :
    Protocol ProcessOp ProcessAns AcceptancePhase where
  next φ
    | .host op => fun x => (acceptanceProtocol codec stateRoot).next φ op x
    | .spawnSupervisor request => fun _ =>
      if φ.MayLaunch request.operationId request.receipt request.executable then some φ else none
    | .supervisorArguments => fun _ => none
    | .openExecutable _ => fun _ => none
    | .spawnWorkload _ => fun _ => none
    | _ => fun _ => some φ

theorem launch_background {stateRoot : PathBuf} {op : ProcessOp} (hop : op.background = true)
    (φ : AcceptancePhase) (x : ProcessAns op) :
    (launchProtocol codec stateRoot).next φ op x = some φ := by
  cases op with
  | host op => cases op <;> first | rfl | cases hop
  | spawnSupervisor request => cases hop
  | supervisorArguments => cases hop
  | openExecutable path => cases hop
  | spawnWorkload command => cases hop
  | _ => rfl

/-- A run as a process. -/
theorem launch_coordinateRun (request : RunRequest) :
    (launchProtocol codec request.stateRoot).Follows (asProcess (coordinateRun codec request)).run
      .initial (Ends (fun _ φ => φ.record.isSome = true ∨ φ.found = true) fun _ _ => True) := by
  have hexpand : ∀ (φ ψ : AcceptancePhase) (op : HostOp), φ = ψ →
      (acceptanceProtocol codec request.stateRoot).Allows (some op) φ →
      (launchProtocol codec request.stateRoot).Follows (expandCall op) ψ fun x ψ' =>
        ∃ φ', (acceptanceProtocol codec request.stateRoot).next φ op x = some φ' ∧ φ' = ψ' := by
    rintro φ _ op rfl hallows
    have hprogram : ∀ {β : Type} {T : ProcessOp → Prop} {p : Process β}, Makes T p →
        (∀ op ψ x, T op → ψ = φ → ∃ ψ', (launchProtocol codec request.stateRoot).next ψ op x =
          some ψ' ∧ ψ' = φ) →
        (launchProtocol codec request.stateRoot).Follows p.run φ fun _ ψ' => ψ' = φ := by
      intro β T p hp hT
      apply follows_mono (obeys_makes hT hp φ rfl)
      rintro (e | a) ψ' hψ'
      · exact hψ'
      · exact hψ'
    by_cases hcoordinate : ∃ child, op = .coordinate child
    · obtain ⟨child, rfl⟩ := hcoordinate
      have hmay : φ.MayLaunch child.operationId child.receipt child.executable := by
        by_contra hno
        have hnext := hallows (.coordinate child) rfl (.error (.state ""))
        simp only [acceptanceProtocol, if_neg hno] at hnext
        exact nomatch hnext
      apply follows_mono (hprogram (T := fun op => op.background = true ∨
        ∃ sup : SupervisorRequest, op = .spawnSupervisor sup ∧
          φ.MayLaunch sup.operationId sup.receipt sup.executable)
        (makes_coordinate (fun op h => Or.inl h) fun sup hid hreceipt hexecutable =>
          Or.inr ⟨sup, rfl, by rw [hid, hreceipt, hexecutable]; exact hmay⟩) _)
      · rintro x _ rfl
        exact ⟨_, if_pos hmay, rfl⟩
      · rintro op _ x (hop | ⟨sup, rfl, hsup⟩) rfl
        · exact ⟨_, launch_background hop _ x, rfl⟩
        · exact ⟨_, if_pos hsup, rfl⟩
    have hcoordinate : ∀ child, op ≠ .coordinate child := fun child h => hcoordinate ⟨child, h⟩
    by_cases hinactive : op = .requireInactive
    · subst hinactive
      apply follows_mono (hprogram (makes_requireInactive fun _ h => h) _)
      · rintro x _ rfl
        exact ⟨_, rfl, rfl⟩
      · rintro op _ x hop rfl
        exact ⟨_, launch_background hop _ x, rfl⟩
    rw [expandCall_eq hcoordinate hinactive]
    apply follows_call
    intro x
    obtain ⟨φ', hn⟩ := Option.isSome_iff_exists.mp (hallows op rfl x)
    exact ⟨φ', hn, follows_ret ⟨φ', hn, rfl⟩⟩
  apply follows_mono (Follows.handle hexpand (within_coordinateRun request).loopFree
    (acceptance_coordinateRun request .initial rfl) rfl)
  rintro (e | u) ψ ⟨φ, hφ, rfl⟩
  · exact hφ
  · exact hφ

end Snoozer.Benchctl
