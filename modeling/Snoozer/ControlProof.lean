import Snoozer.OfficialReceipt
import Snoozer.UserNamespace

/-! The proof that a workload runs under production control: `create_production_proof` and the
environment of the workload in `tools/benchctl/src/supervision.rs`, and its checks in
`benches/support/control_proof.rs` and `official_build_receipt` of `benches/wake_latency.rs`. -/
namespace Json

/-- `to_string` and `from_str` of `serde_json`, on objects. -/
structure Serde where
  toText : List (String × Value) → Except String String
  fromText : String → Except String Value

/-- An object is read back from its text; of its numbers nothing is said, nor of the order in which
the members stand. -/
def Serde.ReadsBack (serde : Serde) (members : List (String × Value)) : Prop :=
  ∀ text, serde.toText members = .ok text →
    ∃ object, serde.fromText text = .ok (.object object) ∧
      ∀ name, (∀ number, members.lookup name ≠ some (.number number)) →
        object.lookup name = members.lookup name

end Json

namespace Snoozer.Benchctl
open Interactive Interactive.Fallible Json

/-- The bytes of a text. -/
def utf8Bytes (text : String) : Bytes := text.toUTF8.data.toList

/-- What `read_to_string` makes of the bytes. -/
def utf8Text (bytes : Bytes) : Except IoError String :=
  match String.fromUTF8? ⟨bytes.toArray⟩ with
  | some text => .ok text
  | none => .error ⟨"stream did not contain valid UTF-8"⟩

theorem utf8Text_utf8Bytes (text : String) : utf8Text (utf8Bytes text) = .ok text := by
  have hbytes : (⟨(utf8Bytes text).toArray⟩ : ByteArray) = text.toByteArray := by
    rw [utf8Bytes, Array.toArray_toList, String.toUTF8_eq_toByteArray]
  have hread : String.fromUTF8? text.toByteArray = some text := dif_pos text.isValidUTF8
  rw [utf8Text, hbytes, hread]

/-- The kernel takes as many bytes of a write as it likes. -/
inductive ProofOp where
  | geteuid
  | readUidMap
  | pipe
  | makeInheritable (reader : ℕ)
  | write (bytes : Bytes)
  | closeWriter

abbrev ProofAns : ProofOp → Type
  | .geteuid => ℕ
  | .readUidMap => Except IoError String
  | .pipe => Except IoError ℕ
  | .makeInheritable _ => Except IoError Unit
  | .write bytes => Except IoError (Fin (bytes.length + 1))
  | .closeWriter => Unit

abbrev ProofEvent := Event ProofOp ProofAns

abbrev Prover := Fallible ProofOp ProofAns BenchError

/-- `.map_err(|error| BenchError::io(operation, error))` on the answer of a call. -/
def proofIo {α : Type} (operation : String) (result : Except IoError α) : Prover α :=
  fromExcept (result.mapError (BenchError.io operation))

/-- The members of `ProductionControlProof`. -/
def proofMembers (operationId buildId : String) : List (String × Value) :=
  [("version", .string "benchctl-production-control-v1"), ("operation_id", .string operationId),
    ("build_id", .string buildId)]

def requireHostRootMapping : Prover Unit := do
  let mappings ← proofIo "reading coordinator user-namespace mapping" (← ask .readUidMap)
  if !mapsNamespaceRootToHostRoot mappings then
    throw (.state
      "production control proof requires root mapped to host UID 0, not user-namespace root")
  else
    return ()

/-- The loop over what remains of the proof. -/
def writeProof (remaining : Bytes) : Prover Unit :=
  if _ : remaining = [] then return ()
  else do
    let answer ← ask (ProofOp.write remaining)
    let written : Fin (remaining.length + 1) ← proofIo "writing production control proof" answer
    if _ : written.val = 0 then
      throw (.state "production control proof pipe accepted no bytes")
    else
      writeProof (remaining.drop written)
termination_by remaining.length
decreasing_by
  have := List.length_pos_of_ne_nil ‹¬ remaining = []›
  rw [List.length_drop]
  omega

def createProductionProof (serde : Serde) (operationId buildId : String) : Prover ℕ := do
  let uid ← ask ProofOp.geteuid
  if uid ≠ 0 then
    throw (.state "production control proof requires a root coordinator")
  else
    requireHostRootMapping
    let proof ← fromExcept ((serde.toText (proofMembers operationId buildId)).mapError
      (BenchError.json "serializing production control proof"))
    let reader ← proofIo "creating production control proof pipe" (← ask .pipe)
    proofIo "making production control proof inheritable" (← ask (.makeInheritable reader))
    writeProof (utf8Bytes proof)
    ask ProofOp.closeWriter
    return reader

/-- What the pipe holds after these events. -/
def piped : List ProofEvent → Bytes
  | [] => []
  | ⟨.write bytes, .ok written⟩ :: rest => bytes.take written ++ piped rest
  | _ :: rest => piped rest

abbrev Environment := String → Option String

def Environment.env (environment : Environment) (name value : String) : Environment :=
  Function.update environment name (some value)

def Environment.envRemove (environment : Environment) (name : String) : Environment :=
  Function.update environment name none

/-- What `workload_supervisor` gives its workload, out of its own environment. -/
def workloadEnvironment (serde : Serde) (receipt : BuildReceipt) (operationId : String)
    (productionControl : Bool) (inherited : Environment) : Prover Environment := do
  let receiptJson ← fromExcept ((serde.toText receipt.members).mapError
    (BenchError.json "serializing accepted build receipt"))
  if productionControl then
    let reader ← createProductionProof serde operationId receipt.buildId
    return ((((((inherited.envRemove "BENCHCTL_BUILD_RECEIPT").envRemove
      "BENCHCTL_PRODUCTION_CONTROL").envRemove "BENCHCTL_PRODUCTION_CONTROL_FD").env
      "BENCHCTL_BUILD_RECEIPT_JSON" receiptJson).env "BENCHCTL_OPERATION_ID" operationId).env
      "BENCHCTL_PRODUCTION_CONTROL_FD" (toString reader))
  else
    return (((((inherited.envRemove "BENCHCTL_BUILD_RECEIPT").envRemove
      "BENCHCTL_PRODUCTION_CONTROL").envRemove "BENCHCTL_PRODUCTION_CONTROL_FD").env
      "BENCHCTL_BUILD_RECEIPT_JSON" receiptJson).env "BENCHCTL_OPERATION_ID" operationId)

end Snoozer.Benchctl

namespace Snoozer.WakeLatency
open Interactive Interactive.Fallible Json
open Benchctl (BuildReceipt Bytes IoError Environment utf8Text utf8Bytes)

structure ProofMetadata where
  uid : ℕ
  fifo : Bool
  deriving DecidableEq, Repr

/-- A variable has no value either when it is not UTF-8. -/
inductive CheckOp where
  | var (name : String)
  | metadata (path : String)
  | readFile (path : String)

abbrev CheckAns : CheckOp → Type
  | .var _ => Option String
  | .metadata _ => Except IoError ProofMetadata
  | .readFile _ => Except IoError Bytes

abbrev Check := Fallible CheckOp CheckAns String

/-- `read_to_string`, from what reading gives. -/
def readToString (content : Except IoError Bytes) : Except IoError String := content.bind utf8Text

/-- `.map_err(|error| format!("{doing}: {error}"))` on the answer of a call. -/
def checkIo {α : Type} (doing : String) (result : Except IoError α) : Check α :=
  fromExcept (result.mapError fun error => s!"{doing}: {error.message}")

def proofVersion : String := "benchctl-production-control-v1"

def i32Max : ℕ := 2 ^ 31 - 1

def u32Max : ℕ := 2 ^ 32 - 1

def descriptorPath (descriptor : ℕ) : String := s!"/proc/self/fd/{descriptor}"

/-- The closure `field`. -/
def proofField (proof : List (String × Value)) (name : String) : Check String :=
  fromExcept (orError s!"Benchctl production-control proof lacks {name}"
    ((proof.lookup name).bind Value.asStr))

/-- The checks of `validate_descriptor` on what the descriptor holds. -/
def validateProof (serde : Serde) (encoded expectedOperationId expectedBuildId : String) :
    Check Unit := do
  let value ← fromExcept ((serde.fromText encoded).mapError fun error =>
    s!"parsing Benchctl production-control proof: {error}")
  let proof ← fromExcept (orError "Benchctl production-control proof must be an object" value.asObject)
  let version ← proofField proof "version"
  if version ≠ proofVersion then
    throw "unsupported Benchctl production-control proof version"
  else
    let operationId ← proofField proof "operation_id"
    if operationId ≠ expectedOperationId then
      throw "Benchctl production-control proof names another operation"
    else
      let buildId ← proofField proof "build_id"
      if buildId ≠ expectedBuildId then
        throw "Benchctl production-control proof names another build receipt"
      else
        return ()

def validateDescriptor (serde : Serde) (descriptor : ℕ)
    (expectedOperationId expectedBuildId : String) : Check Unit := do
  if descriptor < 3 ∨ i32Max < descriptor then
    throw "Benchctl production-control descriptor is outside the valid range"
  else
    let metadata ← checkIo "inspecting Benchctl production-control proof"
      (← ask (.metadata (descriptorPath descriptor)))
    if metadata.uid ≠ 0 ∨ metadata.fifo = false then
      throw "official mode requires a root-owned Benchctl control-proof pipe"
    else
      let uidMap ← checkIo "reading benchmark user-namespace mapping"
        (readToString (← ask (.readFile "/proc/self/uid_map")))
      if !Benchctl.mapsNamespaceRootToHostRoot uidMap then
        throw ("official mode requires a control proof rooted at host UID 0, " ++
          "not user-namespace root")
      else
        let encoded ← checkIo "reading Benchctl production-control proof"
          (readToString (← ask (.readFile (descriptorPath descriptor))))
        validateProof serde encoded expectedOperationId expectedBuildId

/-- `str::parse::<u32>`. -/
def parseU32 (text : String) : Option ℕ :=
  match Decimal.fromStr u32Max text.toList with
  | .ok n => some n
  | .error _ => none

def validateFromEnvironment (serde : Serde) (expectedBuildId : String) : Check Unit := do
  let raw ← ask (.var "BENCHCTL_PRODUCTION_CONTROL_FD")
  let text ← fromExcept
    (orError "official mode requires Benchctl's production-control proof" raw)
  let descriptor ← fromExcept
    (orError "Benchctl production-control descriptor is invalid" (parseU32 text))
  let identity ← ask (.var "BENCHCTL_OPERATION_ID")
  let operationId ← fromExcept
    (orError "official mode requires a Benchctl operation identity" identity)
  validateDescriptor serde descriptor operationId expectedBuildId

/-- `sha256` is the digest in hexadecimal. -/
def officialBuildReceipt (serde : Serde) (sha256 : Bytes → String) (stamps : Stamps) :
    Check BuildReceiptProvenance := do
  let raw ← ask (.var "BENCHCTL_BUILD_RECEIPT_JSON")
  let encoded ← fromExcept
    (orError "official mode requires an accepted build receipt from Benchctl" raw)
  let value ← fromExcept ((serde.fromText encoded).mapError fun error =>
    s!"parsing accepted Benchctl build receipt: {error}")
  let selfExe ← ask (.readFile "/proc/self/exe")
  let receipt ← fromExcept (validateOfficialReceipt sha256 stamps selfExe value)
  validateFromEnvironment serde receipt.buildId
  return receipt

end Snoozer.WakeLatency

namespace Snoozer.Benchctl
open Interactive Interactive.Fallible Json Results

section Written

variable {serde : Serde} {t : List ProofEvent} {operationId buildId : String}

theorem answers_proofIo_bind {α β : Type} {operation : String} {r : Except IoError α}
    {f : α → Prover β} {b : β} :
    Answers (proofIo operation r >>= f) t (.ok b) ↔ ∃ a, Answers (f a) t (.ok b) ∧ r = .ok a :=
  answers_mapError_bind

/-- What was piped by two traces is piped one after the other. -/
theorem piped_append (first rest : List ProofEvent) :
    piped (first ++ rest) = piped first ++ piped rest := by
  induction first with
  | nil => rfl
  | cons e first ih =>
    obtain ⟨op, x⟩ := e
    cases op with
    | write bytes =>
      cases x with
      | error error => exact ih
      | ok written =>
        have hone (events : List ProofEvent) :
            piped (⟨.write bytes, .ok written⟩ :: events) = bytes.take written ++ piped events := rfl
        rw [List.cons_append, hone, hone, ih, List.append_assoc]
    | _ => exact ih

/-- However the kernel splits the writes, the whole proof is in the pipe. -/
theorem piped_writeProof {remaining : Bytes} {u : Unit}
    (h : Answers (writeProof remaining) t (.ok u)) : piped t = remaining := by
  -- on the length of what remains, which every write that is not the last makes shorter
  induction hlength : remaining.length using Nat.strong_induction_on generalizing remaining t with
  | _ n ih =>
    rw [writeProof] at h
    split at h
    · next hnone =>
      obtain ⟨rfl, -⟩ := answers_pure.mp h
      exact hnone.symm
    · next hmore =>
      obtain ⟨answer, rest, h₁, rfl⟩ := answers_ask_bind.mp h
      obtain ⟨written, h₂, rfl⟩ := answers_proofIo_bind.mp h₁
      split at h₂
      · exact absurd h₂ answers_throw
      · next hsome =>
        have hpositive : 0 < remaining.length := List.length_pos_of_ne_nil hmore
        have hless : (remaining.drop written).length < n := by
          rw [List.length_drop]
          omega
        have hrest : piped rest = remaining.drop written := ih _ hless h₂ rfl
        calc piped (⟨.write remaining, .ok written⟩ :: rest)
            = remaining.take written ++ piped rest := rfl
          _ = remaining.take written ++ remaining.drop written := by rw [hrest]
          _ = remaining := List.take_append_drop written remaining

/-- Root of the host has seen its mapping, and the pipe behind the reader holds the proof. -/
structure Proven (serde : Serde) (operationId buildId : String) (reader : ℕ)
    (t : List ProofEvent) : Prop where
  root : (⟨.geteuid, (0 : ℕ)⟩ : ProofEvent) ∈ t
  mapping : ∃ mappings, (⟨.readUidMap, .ok mappings⟩ : ProofEvent) ∈ t ∧
    mapsNamespaceRootToHostRoot mappings = true
  reader : (⟨.pipe, .ok reader⟩ : ProofEvent) ∈ t
  proof : ∃ text, serde.toText (proofMembers operationId buildId) = .ok text ∧
    piped t = utf8Bytes text

/-- The mapping is accepted when the one map that was read takes root to root. -/
theorem answers_requireHostRootMapping {u : Unit} :
    Answers requireHostRootMapping t (.ok u) ↔
      ∃ mappings, mapsNamespaceRootToHostRoot mappings = true ∧
        t = [⟨.readUidMap, .ok mappings⟩] := by
  unfold requireHostRootMapping
  rw [answers_ask_bind]
  constructor
  · rintro ⟨x, rest, h, rfl⟩
    obtain ⟨mappings, h₁, rfl⟩ := answers_proofIo_bind.mp h
    obtain ⟨hmapped, h₂⟩ := answers_guard.mp h₁
    obtain ⟨rfl, -⟩ := answers_pure.mp h₂
    exact ⟨mappings, by simpa using hmapped, rfl⟩
  · rintro ⟨mappings, hmapped, rfl⟩
    have hpass : ¬ (!mapsNamespaceRootToHostRoot mappings) = true := by simp [hmapped]
    exact ⟨.ok mappings, [], answers_proofIo_bind.mpr ⟨mappings,
      answers_guard.mpr ⟨hpass, answers_pure.mpr ⟨rfl, rfl⟩⟩, rfl⟩, rfl⟩

/-- A proof that was created is in the pipe as a whole. -/
theorem proven_of_answers {reader : ℕ}
    (h : Answers (createProductionProof serde operationId buildId) t (.ok reader)) :
    Proven serde operationId buildId reader t := by
  unfold createProductionProof at h
  obtain ⟨uid, t₁, h₁, rfl⟩ := answers_ask_bind.mp h
  obtain ⟨hroot, h₂⟩ := answers_guard.mp h₁
  obtain rfl : uid = 0 := not_not.mp hroot
  obtain ⟨seen, t₂, _, hmapping, h₃, rfl⟩ := answers_bind.mp h₂
  obtain ⟨mappings, hmapped, rfl⟩ := answers_requireHostRootMapping.mp hmapping
  obtain ⟨text, h₄, hencoded⟩ := answers_fromExcept_bind.mp h₃
  obtain ⟨_, t₃, h₅, rfl⟩ := answers_ask_bind.mp h₄
  obtain ⟨opened, h₆, rfl⟩ := answers_proofIo_bind.mp h₅
  obtain ⟨_, t₄, h₇, rfl⟩ := answers_ask_bind.mp h₆
  obtain ⟨_, h₈, rfl⟩ := answers_proofIo_bind.mp h₇
  obtain ⟨written, t₅, _, hwritten, h₉, rfl⟩ := answers_bind.mp h₈
  obtain ⟨_, t₆, h₁₀, rfl⟩ := answers_ask_bind.mp h₉
  obtain ⟨rfl, rfl⟩ := answers_pure.mp h₁₀
  have hpiped : piped (written ++ [⟨.closeWriter, ()⟩]) = utf8Bytes text := by
    rw [piped_append, piped_writeProof hwritten]
    exact List.append_nil _
  exact {
    root := List.mem_cons_self
    mapping := ⟨mappings, by simp, hmapped⟩
    reader := by simp
    proof := ⟨text, mapError_eq_ok.mp hencoded, hpiped⟩ }

end Written

end Snoozer.Benchctl

namespace Snoozer.WakeLatency
open Interactive Interactive.Fallible Json Results
open Benchctl (BuildReceipt Bytes IoError Environment utf8Text utf8Bytes Extent ProofEvent)

section Accepted

variable {serde : Serde} {look : (op : CheckOp) → Option (CheckAns op)}
  {operationId buildId : String}

theorem yields_checkIo {α : Type} {doing : String} {r : Except IoError α} {a : α} :
    Yields look (checkIo doing r) a ↔ r = .ok a := by
  rw [checkIo, yields_fromExcept, mapError_eq_ok]

/-- A path reads as this text. -/
def Reads (look : (op : CheckOp) → Option (CheckAns op)) (path text : String) : Prop :=
  ∃ content, look (.readFile path) = some content ∧ readToString content = .ok text

theorem reads_of_bytes {path text : String}
    (h : look (.readFile path) = some (.ok (utf8Bytes text))) {text' : String} :
    Reads look path text' ↔ text' = text := by
  have hread : readToString (.ok (utf8Bytes text)) = .ok text := Benchctl.utf8Text_utf8Bytes text
  constructor
  · rintro ⟨content, hcontent, htext⟩
    obtain rfl := Option.some.inj (hcontent.symm.trans h)
    exact (Except.ok.inj (hread.symm.trans htext)).symm
  · rintro rfl
    exact ⟨_, h, hread⟩

/-- A text that proves control of the operation for the build. -/
def Proves (serde : Serde) (encoded operationId buildId : String) : Prop :=
  ∃ proof, serde.fromText encoded = .ok (.object proof) ∧
    (proof.lookup "version").bind Value.asStr = some proofVersion ∧
    (proof.lookup "operation_id").bind Value.asStr = some operationId ∧
    (proof.lookup "build_id").bind Value.asStr = some buildId

/-- A text is accepted when it proves the operation and the build. -/
theorem yields_validateProof {encoded : String} {u : Unit} :
    Yields look (validateProof serde encoded operationId buildId) u ↔
      Proves serde encoded operationId buildId := by
  unfold validateProof proofField
  simp only [yields_bind, yields_fromExcept, yields_guard, yields_pure, mapError_eq_ok,
    orError_eq_ok, ne_eq, not_not]
  constructor
  · rintro ⟨value, hvalue, proof, hobject, version, hversion, rfl, operationId, hoperation, rfl,
      buildId, hbuild, rfl, -⟩
    cases value with
    | object members =>
      obtain rfl := Option.some.inj hobject
      exact ⟨_, hvalue, hversion, hoperation, hbuild⟩
    | _ => cases hobject
  · rintro ⟨proof, hvalue, hversion, hoperation, hbuild⟩
    exact ⟨_, hvalue, proof, rfl, _, hversion, rfl, _, hoperation, rfl, _, hbuild, rfl, trivial⟩

/-- Of the proof that was made for an operation and a build, what it proves. -/
theorem proves_iff {encoded made build : String}
    (hencoded : serde.toText (Benchctl.proofMembers made build) = .ok encoded)
    (hserde : serde.ReadsBack (Benchctl.proofMembers made build)) :
    Proves serde encoded operationId buildId ↔ operationId = made ∧ buildId = build := by
  obtain ⟨object, hobject, hlookup⟩ := hserde encoded hencoded
  have hfield (name s : String)
      (h : (Benchctl.proofMembers made build).lookup name = some (.string s)) :
      (object.lookup name).bind Value.asStr = some s := by
    rw [hlookup name (by rw [h]; intro number heq; cases heq), h]
    rfl
  have hversion := hfield "version" proofVersion rfl
  have hoperation := hfield "operation_id" made rfl
  have hbuild := hfield "build_id" build rfl
  constructor
  · rintro ⟨proof, hproof, -, hoperation', hbuild'⟩
    obtain rfl : object = proof := Value.object.inj (Except.ok.inj (hobject.symm.trans hproof))
    exact ⟨Option.some.inj (hoperation'.symm.trans hoperation),
      Option.some.inj (hbuild'.symm.trans hbuild)⟩
  · rintro ⟨rfl, rfl⟩
    exact ⟨object, hobject, hversion, hoperation, hbuild⟩

/-- The descriptor is a pipe of root. -/
def RootPipe (look : (op : CheckOp) → Option (CheckAns op)) (descriptor : ℕ) : Prop :=
  ∃ metadata, look (.metadata (descriptorPath descriptor)) = some (.ok metadata) ∧
    metadata.uid = 0 ∧ metadata.fifo = true

/-- A descriptor is accepted when it is root's pipe, in the host's mapping, with a proof in it. -/
theorem yields_validateDescriptor {descriptor : ℕ} {u : Unit} :
    Yields look (validateDescriptor serde descriptor operationId buildId) u ↔
      3 ≤ descriptor ∧ descriptor ≤ i32Max ∧ RootPipe look descriptor ∧
      (∃ mappings, Reads look "/proc/self/uid_map" mappings ∧
        Benchctl.mapsNamespaceRootToHostRoot mappings = true) ∧
      ∃ encoded, Reads look (descriptorPath descriptor) encoded ∧
        Proves serde encoded operationId buildId := by
  unfold validateDescriptor
  simp only [yields_bind, yields_guard, yields_ask, yields_checkIo, yields_validateProof, not_or,
    not_lt, not_not, ne_eq, Bool.not_eq_false, Bool.not_eq_eq_eq_not, Bool.not_true]
  constructor
  · rintro ⟨⟨hlow, hhigh⟩, _, hmetadata, metadata, rfl, ⟨huid, hfifo⟩, mapping, hmapping, mappings,
      hmappings, hmapped, content, hcontent, encoded, hencoded, hproves⟩
    exact ⟨hlow, hhigh, ⟨metadata, hmetadata, huid, hfifo⟩,
      ⟨mappings, ⟨mapping, hmapping, hmappings⟩, hmapped⟩,
      encoded, ⟨content, hcontent, hencoded⟩, hproves⟩
  · rintro ⟨hlow, hhigh, ⟨metadata, hmetadata, huid, hfifo⟩,
      ⟨mappings, ⟨mapping, hmapping, hmappings⟩, hmapped⟩,
      encoded, ⟨content, hcontent, hencoded⟩, hproves⟩
    exact ⟨⟨hlow, hhigh⟩, _, hmetadata, metadata, rfl, ⟨huid, hfifo⟩, mapping, hmapping, mappings,
      hmappings, hmapped, content, hcontent, encoded, hencoded, hproves⟩

/-- A printed descriptor is parsed back when it fits. -/
theorem parseU32_toString {n d : ℕ} : parseU32 (toString n) = some d ↔ d = n ∧ n ≤ u32Max := by
  have hliteral (h : n ≤ u32Max) : Decimal.fromStr u32Max (toString n).toList = .ok n :=
    Decimal.fromStr_eq_ok.mpr (Decimal.literal_repr h)
  unfold parseU32
  constructor
  · intro h
    split at h
    · next m hm =>
      obtain rfl := Option.some.inj h
      obtain ⟨digits, htext, hne, hdigits, hvalue, hle⟩ := Decimal.fromStr_eq_ok.mp hm
      -- both numbers are literals where the bound is large enough for both
      have hwide : Decimal.Literal (max u32Max n) n.repr.toList m :=
        ⟨digits, htext, hne, hdigits, hvalue, hle.trans (le_max_left _ _)⟩
      have hown : Decimal.Literal (max u32Max n) n.repr.toList n :=
        Decimal.literal_repr (le_max_right _ _)
      have heq : m = n := hwide.unique hown
      exact ⟨heq, heq ▸ hle⟩
    · cases h
  · rintro ⟨rfl, hle⟩
    rw [hliteral hle]

/-- The environment names the descriptor and the operation that are then checked. -/
theorem yields_validateFromEnvironment {environment : Environment}
    (hvar : ∀ name, look (.var name) = some (environment name)) {u : Unit} :
    Yields look (validateFromEnvironment serde buildId) u ↔
      ∃ text descriptor operationId, environment "BENCHCTL_PRODUCTION_CONTROL_FD" = some text ∧
        parseU32 text = some descriptor ∧ environment "BENCHCTL_OPERATION_ID" = some operationId ∧
        Yields look (validateDescriptor serde descriptor operationId buildId) () := by
  unfold validateFromEnvironment
  simp only [yields_bind, yields_ask, yields_fromExcept, orError_eq_ok, hvar, Option.some.injEq]
  constructor
  · rintro ⟨_, rfl, text, htext, descriptor, hparse, _, rfl, operationId, hidentity, h⟩
    exact ⟨text, descriptor, operationId, htext, hparse, hidentity, h⟩
  · rintro ⟨text, descriptor, operationId, htext, hparse, hidentity, h⟩
    exact ⟨_, rfl, text, htext, descriptor, hparse, _, rfl, operationId, hidentity, h⟩

end Accepted

section Receipt

variable {sha256 : Bytes → String} {stamps : Stamps} {selfExe : Except IoError Bytes}

theorem ok_bind {α β : Type} {a : α} {f : α → Except String β} : (Except.ok a >>= f) = f a := rfl

/-- The time of the build is not looked at. -/
theorem validateOfficialReceipt_congr {object members : List (String × Value)}
    (h : ∀ name, name ≠ "built_unix_millis" → object.lookup name = members.lookup name) :
    validateOfficialReceipt sha256 stamps selfExe (.object object) =
      validateOfficialReceipt sha256 stamps selfExe (.object members) := by
  have hrequired (name : String) (hname : name ≠ "built_unix_millis") :
      requiredString object name = requiredString members name := by
    rw [requiredString, requiredString, h name hname]
  simp only [validateOfficialReceipt, readProvenance, Value.asObject, orError, ok_bind, hrequired, h,
    ne_eq, String.reduceEq, not_false_eq_true]

theorem number_member {receipt : BuildReceipt} {name number : String}
    (h : receipt.members.lookup name = some (.number number)) : name = "built_unix_millis" := by
  obtain ⟨before, after, heq, -⟩ := List.lookup_eq_some_iff.mp h
  have hmem : (name, Value.number number) ∈ receipt.members := by
    rw [heq]
    exact List.mem_append_right _ List.mem_cons_self
  have hboth : name = "built_unix_millis" ∧ number = receipt.builtUnixMillis.repr := by
    simpa [BuildReceipt.members] using hmem
  exact hboth.1

/-- The validated provenance has the receipt's build id. -/
theorem buildId_of_validateOfficialReceipt {receipt : BuildReceipt} {p : BuildReceiptProvenance}
    (h : validateOfficialReceipt sha256 stamps selfExe (.object receipt.members) = .ok p) :
    p.buildId = receipt.buildId := by
  unfold validateOfficialReceipt at h
  obtain ⟨object, hobject, h₁⟩ := bind_eq_ok.mp h
  obtain rfl := Option.some.inj (orError_eq_ok.mp hobject)
  obtain ⟨version, -, h₂⟩ := bind_eq_ok.mp h₁
  obtain ⟨-, h₃⟩ := guard_eq_ok.mp h₂
  obtain ⟨-, h₄⟩ := guard_eq_ok.mp h₃
  obtain ⟨q, hprovenance, h₅⟩ := bind_eq_ok.mp h₄
  obtain ⟨hq, -⟩ := readProvenance_members.mp hprovenance
  obtain ⟨_, -, h₆⟩ := bind_eq_ok.mp h₅
  obtain ⟨_, -, h₇⟩ := bind_eq_ok.mp h₆
  obtain ⟨_, -, h₈⟩ := bind_eq_ok.mp h₇
  obtain ⟨-, h₉⟩ := guard_eq_ok.mp h₈
  rw [pure_eq_ok.mp h₉, hq]
  rfl

/-- What a process of the workload sees that was started with this environment. -/
structure Started (look : (op : CheckOp) → Option (CheckAns op)) (environment : Environment)
    (extents : List Extent) (selfExe : Except IoError Bytes) : Prop where
  var : ∀ name, look (.var name) = some (environment name)
  uidMap : look (.readFile "/proc/self/uid_map") =
    some (.ok (utf8Bytes (Benchctl.uidMapText extents)))
  selfExe : look (.readFile "/proc/self/exe") = some selfExe

/-- A workload that was started reads its own receipt back. -/
theorem yields_officialBuildReceipt {serde : Serde} {look : (op : CheckOp) → Option (CheckAns op)}
    {environment : Environment} {extents : List Extent} {receipt : BuildReceipt} {text : String}
    {p : BuildReceiptProvenance} (hstarted : Started look environment extents selfExe)
    (hjson : environment "BENCHCTL_BUILD_RECEIPT_JSON" = some text)
    (htext : serde.toText receipt.members = .ok text) (hserde : serde.ReadsBack receipt.members) :
    Yields look (officialBuildReceipt serde sha256 stamps) p ↔
      validateOfficialReceipt sha256 stamps selfExe (.object receipt.members) = .ok p ∧
        Yields look (validateFromEnvironment serde receipt.buildId) () := by
  obtain ⟨object, hobject, hlookup⟩ := hserde text htext
  have hsame : validateOfficialReceipt sha256 stamps selfExe (.object object) =
      validateOfficialReceipt sha256 stamps selfExe (.object receipt.members) := by
    apply validateOfficialReceipt_congr
    intro name hname
    exact hlookup name fun number h => hname (number_member h)
  unfold officialBuildReceipt
  simp only [yields_bind, yields_ask, yields_fromExcept, yields_pure, orError_eq_ok, mapError_eq_ok,
    hstarted.var, hstarted.selfExe, Option.some.injEq]
  constructor
  · rintro ⟨_, rfl, _, hraw, value, hvalue, _, rfl, q, hq, _, hcontrol, rfl⟩
    obtain rfl := Option.some.inj (hraw.symm.trans hjson)
    obtain rfl := Except.ok.inj (hvalue.symm.trans hobject)
    rw [hsame] at hq
    rw [buildId_of_validateOfficialReceipt hq] at hcontrol
    exact ⟨hq, hcontrol⟩
  · rintro ⟨hp, hcontrol⟩
    rw [← buildId_of_validateOfficialReceipt hp] at hcontrol
    exact ⟨_, rfl, text, hjson, _, hobject, _, rfl, p, hsame.trans hp, (), hcontrol, rfl⟩

end Receipt

end Snoozer.WakeLatency

namespace Snoozer.Benchctl
open Interactive Interactive.Fallible Json Results

section Handover

variable {serde : Serde} {receipt : BuildReceipt} {operationId : String} {productionControl : Bool}
  {inherited environment : Environment} {t : List ProofEvent}

/-- What the workload is given, whatever its supervisor was started with. -/
structure HandedOver (serde : Serde) (receipt : BuildReceipt) (operationId : String)
    (productionControl : Bool) (environment : Environment) (t : List ProofEvent) : Prop where
  json : ∃ text, serde.toText receipt.members = .ok text ∧
    environment "BENCHCTL_BUILD_RECEIPT_JSON" = some text
  operation : environment "BENCHCTL_OPERATION_ID" = some operationId
  proof : productionControl = true → ∃ reader, Proven serde operationId receipt.buildId reader t ∧
    environment "BENCHCTL_PRODUCTION_CONTROL_FD" = some (toString reader)
  noProof : productionControl = false →
    t = [] ∧ environment "BENCHCTL_PRODUCTION_CONTROL_FD" = none

/-- The environment of a started workload hands the receipt and the proof over. -/
theorem handedOver_of_answers
    (h : Answers (workloadEnvironment serde receipt operationId productionControl inherited) t
      (.ok environment)) :
    HandedOver serde receipt operationId productionControl environment t := by
  unfold workloadEnvironment at h
  obtain ⟨text, h₁, hjson⟩ := answers_fromExcept_bind.mp h
  have htext : serde.toText receipt.members = .ok text := mapError_eq_ok.mp hjson
  cases productionControl with
  | true =>
    rw [if_pos rfl] at h₁
    obtain ⟨events, rest, reader, hproof, h₂, rfl⟩ := answers_bind.mp h₁
    obtain ⟨rfl, rfl⟩ := answers_pure.mp h₂
    rw [List.append_nil]
    exact {
      json := ⟨text, htext, by simp [Environment.env]⟩
      operation := by simp [Environment.env]
      proof := fun _ => ⟨reader, proven_of_answers hproof, by simp [Environment.env]⟩
      noProof := fun h => by cases h }
  | false =>
    rw [if_neg Bool.false_ne_true] at h₁
    obtain ⟨rfl, rfl⟩ := answers_pure.mp h₁
    exact {
      json := ⟨text, htext, by simp [Environment.env]⟩
      operation := by simp [Environment.env]
      proof := fun h => by cases h
      noProof := fun _ => ⟨rfl, by simp [Environment.env, Environment.envRemove]⟩ }

theorem within_proofIo {α : Type} (operation : String) (r : Except IoError α) :
    Within (fun _ => True) (proofIo operation r) := trivial

/-- Writing the proof makes calls of any kind until it ends. -/
theorem within_writeProof (remaining : Bytes) : Within (fun _ => True) (writeProof remaining) := by
  induction hlength : remaining.length using Nat.strong_induction_on generalizing remaining with
  | _ n ih =>
    rw [writeProof]
    split
    · exact within_pure _
    · next hmore =>
      apply (within_ask trivial).bind
      intro answer
      apply (within_proofIo _ _).bind
      intro written
      split
      · exact within_throw _
      · next hsome =>
        have hpositive : 0 < remaining.length := List.length_pos_of_ne_nil hmore
        have hless : (remaining.drop written).length < n := by
          rw [List.length_drop]
          omega
        exact ih _ hless _ rfl

/-- So does the environment of the workload. -/
theorem within_workloadEnvironment :
    Within (fun _ => True)
      (workloadEnvironment serde receipt operationId productionControl inherited) := by
  have hmapping : Within (fun _ => True) requireHostRootMapping :=
    (within_ask trivial).bind fun _ => (within_proofIo _ _).bind fun _ =>
      (within_throw _).ite (within_pure _)
  have hproof (buildId : String) :
      Within (fun _ => True) (createProductionProof serde operationId buildId) :=
    (within_ask trivial).bind fun _ => (within_throw _).ite <| hmapping.bind fun _ =>
      Within.bind (p := fromExcept _) trivial fun _ => (within_ask trivial).bind fun _ =>
      (within_proofIo _ _).bind fun _ => (within_ask trivial).bind fun _ =>
      (within_proofIo _ _).bind fun _ => (within_writeProof _).bind fun _ =>
      (within_ask trivial).bind fun _ => within_pure _
  exact Within.bind (p := fromExcept _) trivial fun _ =>
    ((hproof _).bind fun _ => within_pure _).ite (within_pure _)

end Handover

end Snoozer.Benchctl

namespace Snoozer.WakeLatency
open Interactive Interactive.Fallible Json
open Benchctl (BuildReceipt Bytes IoError Environment Extent ProofEvent)

/-- The official benchmark in a workload of the supervisor, whatever environment the supervisor was
started with. Without production control it is refused. With it, the supervisor was root of its
mapping, and the two identities that the proof names never differ from those that the benchmark
expects: what decides is the receipt, that the reader is a pipe of root where root is mapped to
root, and that the workload may open it again by its path, which is not what inheriting it gives. -/
theorem production_control_accepted_iff (sha256 : Bytes → String) (stamps : Stamps) {serde : Serde}
    {receipt : BuildReceipt} {operationId : String} {productionControl : Bool}
    {inherited environment : Environment} {t : List ProofEvent}
    (h : Reach (traceMachine Benchctl.ProofOp Benchctl.ProofAns)
      ((Benchctl.workloadEnvironment serde receipt operationId productionControl inherited).run, [])
      (.ret (.ok environment), t))
    (hreceipt : serde.ReadsBack receipt.members)
    (hproof : serde.ReadsBack (Benchctl.proofMembers operationId receipt.buildId)) :
    (productionControl = false → t = [] ∧
      ∀ look extents selfExe, Started look environment extents selfExe →
        ∀ p, ¬ Yields look (officialBuildReceipt serde sha256 stamps) p) ∧
    (productionControl = true → ∃ reader,
      Benchctl.Proven serde operationId receipt.buildId reader t ∧
      ∀ look extents selfExe metadata content, Started look environment extents selfExe →
        look (.metadata (descriptorPath reader)) = some metadata →
        look (.readFile (descriptorPath reader)) = some content →
        (∀ bytes, content = .ok bytes → bytes = Benchctl.piped t) →
        ∀ p, Yields look (officialBuildReceipt serde sha256 stamps) p ↔
          validateOfficialReceipt sha256 stamps selfExe (.object receipt.members) = .ok p ∧
          3 ≤ reader ∧ reader ≤ i32Max ∧
          (∃ found, metadata = .ok found ∧ found.uid = 0 ∧ found.fifo = true) ∧
          (∃ extent ∈ extents, extent.MapsRoot) ∧ ∃ bytes, content = .ok bytes) := by
  obtain ⟨events, ht, hanswers⟩ :=
    Prog.answered_of_reach (Prog.Within.loopFree Benchctl.within_workloadEnvironment) h
  rw [List.nil_append] at ht
  subst ht
  have hover := Benchctl.handedOver_of_answers hanswers
  obtain ⟨text, htext, hjson⟩ := hover.json
  constructor
  · intro hoff
    obtain ⟨hnone, hunset⟩ := hover.noProof hoff
    refine ⟨hnone, fun look extents selfExe hstarted p hyields => ?_⟩
    have hcontrol := ((yields_officialBuildReceipt hstarted hjson htext hreceipt).mp hyields).2
    obtain ⟨_, _, _, hset, -⟩ := (yields_validateFromEnvironment hstarted.var).mp hcontrol
    rw [hunset] at hset
    cases hset
  · intro hon
    obtain ⟨reader, hproven, hset⟩ := hover.proof hon
    refine ⟨reader, hproven, fun look extents selfExe metadata content hstarted hmetadata hcontent
      hread p => ?_⟩
    obtain ⟨encoded, hencoded, hpiped⟩ := hproven.proof
    rw [hpiped] at hread
    have hmapped : (∃ mappings, Reads look "/proc/self/uid_map" mappings ∧
        Benchctl.mapsNamespaceRootToHostRoot mappings = true) ↔
        ∃ extent ∈ extents, extent.MapsRoot := by
      simp only [reads_of_bytes hstarted.uidMap, exists_eq_left,
        Benchctl.mapsNamespaceRootToHostRoot_text]
    have hproves : (∃ encoded, Reads look (descriptorPath reader) encoded ∧
        Proves serde encoded operationId receipt.buildId) ↔ ∃ bytes, content = .ok bytes := by
      cases content with
      | error e => simp [Reads, hcontent, readToString, Except.bind]
      | ok bytes =>
        obtain rfl := hread bytes rfl
        simp [reads_of_bytes hcontent, proves_iff hencoded hproof]
    have hpipe : RootPipe look reader ↔
        ∃ found, metadata = .ok found ∧ found.uid = 0 ∧ found.fifo = true := by
      simp only [RootPipe, hmetadata, Option.some.injEq]
    rw [yields_officialBuildReceipt hstarted hjson htext hreceipt,
      yields_validateFromEnvironment hstarted.var, hset, hover.operation]
    constructor
    · rintro ⟨hp, text', descriptor, operationId', hfd, hparse, hid, hcontrol⟩
      obtain rfl := Option.some.inj hfd
      obtain rfl := Option.some.inj hid
      obtain ⟨rfl, -⟩ := parseU32_toString.mp hparse
      rw [yields_validateDescriptor, hpipe, hmapped, hproves] at hcontrol
      exact ⟨hp, hcontrol⟩
    · rintro ⟨hp, hlow, hhigh, hfound, hextent, hreadable⟩
      have hfits : reader ≤ u32Max := hhigh.trans (by decide)
      refine ⟨hp, toString reader, reader, operationId, rfl, parseU32_toString.mpr ⟨rfl, hfits⟩,
        rfl, ?_⟩
      rw [yields_validateDescriptor, hpipe, hmapped, hproves]
      exact ⟨hlow, hhigh, hfound, hextent, hreadable⟩

end Snoozer.WakeLatency

namespace Snoozer.Benchctl
open Interactive Interactive.Fallible Json

/-- Where the kernel takes some bytes of every write, the loop ends. -/
theorem yields_writeProof {look : (op : ProofOp) → Option (ProofAns op)}
    (h : ∀ bytes, bytes ≠ [] → ∃ written : Fin (bytes.length + 1),
      written.val ≠ 0 ∧ look (.write bytes) = some (.ok written)) (remaining : Bytes) :
    Yields look (writeProof remaining) () := by
  induction hlength : remaining.length using Nat.strong_induction_on generalizing remaining with
  | _ n ih =>
    rw [writeProof]
    split
    · exact yields_pure.mpr rfl
    · next hmore =>
      obtain ⟨written, hsome, hwrite⟩ := h remaining hmore
      have hpositive : 0 < remaining.length := List.length_pos_of_ne_nil hmore
      have hless : (remaining.drop written).length < n := by
        rw [List.length_drop]
        omega
      refine yields_bind.mpr ⟨_, yields_ask.mpr hwrite, yields_bind.mpr ⟨written, rfl, ?_⟩⟩
      rw [dif_neg hsome]
      exact ih _ hless _ rfl

def sampleProofText : String :=
  "\x7b\"version\":\"benchctl-production-control-v1\",\"operation_id\":\"o\",\"build_id\":\"d\"\x7d"

def sampleReceiptText : String :=
  "\x7b\"version\":\"benchctl-build-receipt-v1\",\"build_id\":\"d\"," ++
  "\"manifest_path\":\"/r/Cargo.toml\",\"repository\":\"/r\",\"source_commit\":\"c0ffee\"," ++
  "\"source_clean\":true,\"lockfile_path\":\"/r/Cargo.lock\",\"lockfile_sha256\":\"d\"," ++
  "\"package_id\":\"p\",\"bench\":\"wake_latency\",\"features\":[\"amd\",\"benchmark-only\"]," ++
  "\"profile\":\"bench\",\"rustc\":\"rustc 1\\nhost: t\"," ++
  "\"rustup_toolchain\":\"repository-toolchain-file\",\"target_triple\":\"t\"," ++
  "\"benchctl_version\":\"1\",\"benchctl_executable_sha256\":\"d\",\"executable\":\"/r/b\"," ++
  "\"executable_sha256\":\"d\",\"built_unix_millis\":0\x7d"

theorem sampleReceiptText_ne : sampleReceiptText ≠ sampleProofText := by decide

def sampleFromText (text : String) : Except String Value :=
  if text = sampleProofText then .ok (.object (proofMembers "o" "d"))
  else if text = sampleReceiptText then .ok (.object sampleBuilt.members)
  else .error "expected value at line 1 column 1"

/-- The two objects of the sample. -/
def sampleSerde : Serde where
  toText members :=
    if (members.lookup "operation_id").isSome then .ok sampleProofText else .ok sampleReceiptText
  fromText := sampleFromText

theorem sampleFromText_proof :
    sampleFromText sampleProofText = .ok (.object (proofMembers "o" "d")) := if_pos rfl

theorem sampleFromText_receipt :
    sampleFromText sampleReceiptText = .ok (.object sampleBuilt.members) :=
  (if_neg sampleReceiptText_ne).trans (if_pos rfl)

/-- Root of the host; a write takes at most 64 bytes. -/
def sampleKernel : (op : ProofOp) → Option (ProofAns op)
  | .geteuid => some (0 : ℕ)
  | .readUidMap => some (.ok (uidMapText [⟨0, 0, 4294967295, by decide⟩]))
  | .pipe => some (.ok (7 : ℕ))
  | .makeInheritable _ => some (.ok ())
  | .write bytes => some (.ok ⟨min 64 bytes.length, by omega⟩)
  | .closeWriter => some ()

/-- The sample's kernel lets a proof be created. -/
theorem sampleKernel_createProductionProof :
    Yields sampleKernel (createProductionProof sampleSerde "o" sampleBuilt.buildId) 7 := by
  have hmapped : mapsNamespaceRootToHostRoot (uidMapText [⟨0, 0, 4294967295, by decide⟩]) = true :=
    (mapsNamespaceRootToHostRoot_text _).mpr
      ⟨_, List.mem_singleton_self _, rfl, rfl, show 0 < 4294967295 by decide⟩
  have hwrite : Yields sampleKernel (writeProof (utf8Bytes sampleProofText)) () := by
    apply yields_writeProof
    intro bytes hbytes
    have hpositive : 0 < bytes.length := List.length_pos_of_ne_nil hbytes
    refine ⟨⟨min 64 bytes.length, by omega⟩, ?_, rfl⟩
    show min 64 bytes.length ≠ 0
    omega
  have hmapping : Yields sampleKernel requireHostRootMapping () := by
    refine yields_bind.mpr ⟨_, yields_ask.mpr rfl, yields_bind.mpr ⟨_, rfl, ?_⟩⟩
    rw [hmapped]
    exact yields_pure.mpr rfl
  refine yields_bind.mpr ⟨(0 : ℕ), yields_ask.mpr rfl, ?_⟩
  rw [if_neg (not_not.mpr rfl)]
  refine yields_bind.mpr ⟨(), hmapping, yields_bind.mpr ⟨sampleProofText, rfl, ?_⟩⟩
  refine yields_bind.mpr ⟨_, yields_ask.mpr rfl, yields_bind.mpr ⟨(7 : ℕ), rfl, ?_⟩⟩
  refine yields_bind.mpr ⟨_, yields_ask.mpr rfl, yields_bind.mpr ⟨(), rfl, ?_⟩⟩
  refine yields_bind.mpr ⟨(), hwrite, yields_bind.mpr ⟨(), yields_ask.mpr rfl, ?_⟩⟩
  exact yields_pure.mpr rfl

/-- An environment of the supervisor that holds a forged descriptor. -/
def forgedEnvironment : Environment := fun _ => some "3"

def sampleEnvironment : Environment :=
  (((((forgedEnvironment.envRemove "BENCHCTL_BUILD_RECEIPT").envRemove
    "BENCHCTL_PRODUCTION_CONTROL").envRemove "BENCHCTL_PRODUCTION_CONTROL_FD").env
    "BENCHCTL_BUILD_RECEIPT_JSON" sampleReceiptText).env "BENCHCTL_OPERATION_ID" "o").env
    "BENCHCTL_PRODUCTION_CONTROL_FD" (toString 7)

theorem sampleKernel_workloadEnvironment :
    Yields sampleKernel (workloadEnvironment sampleSerde sampleBuilt "o" true forgedEnvironment)
      sampleEnvironment := by
  refine yields_bind.mpr ⟨sampleReceiptText, rfl, ?_⟩
  rw [if_pos rfl]
  exact yields_bind.mpr ⟨7, sampleKernel_createProductionProof, yields_pure.mpr rfl⟩

end Snoozer.Benchctl

namespace Snoozer.WakeLatency
open Interactive Interactive.Fallible Json
open Benchctl (Bytes sampleSerde sampleBuilt sampleBuildCodec sampleKernel utf8Bytes)

/-- What a benchmark of root sees in that workload, with the bytes that the pipe gives. -/
def sampleWorkload (pipe : Bytes) : (op : CheckOp) → Option (CheckAns op)
  | .var name => some (Benchctl.sampleEnvironment name)
  | .metadata _ => some (.ok ⟨0, true⟩)
  | .readFile path => some (.ok (if path = "/proc/self/uid_map" then
      utf8Bytes (Benchctl.uidMapText [⟨0, 0, 4294967295, by decide⟩])
    else if path = "/proc/self/exe" then [] else pipe))

/-- That workload is accepted, behind descriptor 7. -/
theorem production_control_accepted_sample :
    ∃ t, Benchctl.Proven sampleSerde "o" sampleBuilt.buildId 7 t ∧
      Yields (sampleWorkload (Benchctl.piped t)) (officialBuildReceipt sampleSerde
        sampleBuildCodec.hexDigest (compiledWith (Benchctl.stamps sampleBuilt)))
        sampleBuilt.provenance := by
  have hreceipt : sampleSerde.ReadsBack sampleBuilt.members := by
    intro text htext
    obtain rfl : Benchctl.sampleReceiptText = text := Except.ok.inj htext
    refine ⟨sampleBuilt.members, ?_, fun _ _ => rfl⟩
    simp only [sampleSerde, Benchctl.sampleFromText_receipt]
  have hproof : sampleSerde.ReadsBack (Benchctl.proofMembers "o" sampleBuilt.buildId) := by
    intro text htext
    obtain rfl : Benchctl.sampleProofText = text := Except.ok.inj htext
    exact ⟨_, Benchctl.sampleFromText_proof, fun _ _ => rfl⟩
  obtain ⟨t, ht, hlook⟩ := Prog.answered_of_answer Benchctl.sampleKernel_workloadEnvironment
  have hrun := ht.reach []
  rw [List.nil_append] at hrun
  obtain ⟨reader, hproven, haccepted⟩ := (production_control_accepted_iff sampleBuildCodec.hexDigest
    (compiledWith (Benchctl.stamps sampleBuilt)) hrun hreceipt hproof).2 rfl
  obtain rfl : (7 : ℕ) = reader := Except.ok.inj (Option.some.inj (hlook _ hproven.reader))
  have hstarted : Started (sampleWorkload (Benchctl.piped t)) Benchctl.sampleEnvironment
      [⟨0, 0, 4294967295, by decide⟩] (.ok []) := ⟨fun _ => rfl, rfl, rfl⟩
  refine ⟨t, hproven, (haccepted _ _ _ (.ok ⟨0, true⟩) (.ok (Benchctl.piped t)) hstarted rfl rfl
    (fun _ h => (Except.ok.inj h).symm) _).mpr ⟨?_, by decide, by decide, ⟨_, rfl, rfl, rfl⟩,
      ⟨_, List.mem_singleton_self _, rfl, rfl, show 0 < 4294967295 by decide⟩, _, rfl⟩⟩
  decide +kernel

end Snoozer.WakeLatency
