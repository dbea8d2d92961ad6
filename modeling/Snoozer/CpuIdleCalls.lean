import Snoozer.CpuIdleRun

/-! The calls that each part of the coordinator can make. A part that makes only quiet
calls leaves everything but its own knowledge alone; the others are told apart by
their sysfs writes and by the journals that they store. -/
namespace Snoozer.Benchctl
open Interactive Fallible

/-- Calls that change neither the tree nor the state directory, take no lock and ask for no
journal by name. -/
def HostOp.quiet : HostOp → Bool
  | .write _ _ => false
  | .writeJournal _ _ => false
  | .atomicWrite _ _ => false
  | .coordinate _ => false
  | .lockFor _ => false
  | .requireInactive => false
  | .journalExists _ => false
  | _ => true

variable {codec : Codec} {α : Type} {S : HostOp → Prop}

theorem within_ofExcept (r : Except BenchError α) : Within S (ofExcept r) := trivial

theorem within_call {op : HostOp} {f : HostAns op → Bench α} (hop : S op)
    (hf : ∀ x, Within S (f x)) : Within S (ask op >>= f) :=
  (within_ask hop).bind hf

section Quiet

variable (hS : ∀ op : HostOp, op.quiet = true → S op)

include hS

theorem within_loadJournal (id : String) : Within S (loadJournal codec id) :=
  within_call (hS _ rfl) fun _ => (within_ofExcept _).bind fun _ =>
    (within_ofExcept _).bind fun _ => within_pure _

/-- A transition is known up to its time. -/
theorem within_transition {j : Journal} {stage : Stage} {a : Actor} {f : Journal → Bench α}
    (hf : ∀ millis, Within S (f (j.push stage a millis))) :
    Within S (j.transition stage a >>= f) :=
  ⟨hS .nowMillis rfl, hf⟩

theorem within_actorTransition {j : Journal} {stage : Stage} {f : Journal → Bench α}
    (hf : ∀ a millis, Within S (f (j.push stage a millis))) :
    Within S (do f (← j.transition stage (← actor))) :=
  within_call (hS .actor rfl) fun a => within_transition hS (hf a)

theorem within_rejectSymlink (path : PathBuf) : Within S (rejectSymlink path) :=
  within_call (hS _ rfl) fun _ => (within_ofExcept _).bind fun _ =>
    .ite (within_throw _) (within_pure _)

theorem within_readTrimmed (path : PathBuf) (operation : String) :
    Within S (readTrimmed path operation) :=
  within_call (hS _ rfl) fun _ => (within_ofExcept _).bind fun _ => within_pure _

theorem within_readBit (path : PathBuf) : Within S (readBit path) :=
  (within_readTrimmed hS _ _).bind fun _ => .ite (within_throw _) (within_pure _)

theorem within_inventoryItem (cpu : ℕ) (root : PathBuf) (fileName : String) :
    Within S (inventoryItem cpu root fileName) := by
  unfold inventoryItem
  split
  · exact within_pure _
  · split
    · exact within_throw _
    · exact (within_rejectSymlink hS _).bind fun _ => (within_rejectSymlink hS _).bind fun _ =>
        (within_rejectSymlink hS _).bind fun _ => (within_readTrimmed hS _ _).bind fun _ =>
        (within_readBit hS _).bind fun _ => within_pure _

theorem within_inventoryItems (cpu : ℕ) (root : PathBuf) (items : List (Except IoError String))
    (scan : CpuScan) : Within S (inventoryItems cpu root items scan) := by
  induction items generalizing scan with
  | nil => exact within_pure _
  | cons item rest ih =>
    refine (within_ofExcept _).bind fun _ => (within_inventoryItem hS ..).bind fun entry => ?_
    cases entry with
    | none => exact ih scan
    | some entry => exact ih (scan.push entry)

theorem within_inventory (root : PathBuf) (cpus : List ℕ) : Within S (inventory root cpus) := by
  induction cpus with
  | nil => exact within_pure _
  | cons cpu rest ih =>
    have hcpu : Within S (inventoryCpu root cpu) :=
      (within_rejectSymlink hS _).bind fun _ => (within_rejectSymlink hS _).bind fun _ =>
        within_call (hS _ rfl) fun _ => (within_ofExcept _).bind fun _ =>
        (within_inventoryItems hS ..).bind fun _ => .ite (within_throw _) (within_pure _)
    exact hcpu.bind fun _ => ih.bind fun _ => within_pure _

theorem within_validateInventory (root : PathBuf) (es : List IdleEntry) :
    Within S (validateInventory root es) :=
  (within_inventory hS _ _).bind fun _ => .ite (within_throw _) (within_pure _)

theorem within_selectJournalsLoop (only : Bool) (entries : List (Except IoError String)) :
    Within S (selectJournalsLoop codec only entries) := by
  induction entries with
  | nil => exact within_pure _
  | cons entry rest ih =>
    exact (within_ofExcept _).bind fun _ => .ite
      ((within_loadJournal hS _).bind fun _ => ih.bind fun _ => within_pure _)
      (ih.bind fun _ => within_pure _)

theorem within_selectJournals {operationId : Option String} (only : Bool)
    (hexists : ∀ id, operationId = some id → S (.journalExists id)) :
    Within S (selectJournals codec operationId only) := by
  cases operationId with
  | some id =>
    exact Within.bind (.ite (within_pure _) (within_throw _)) fun _ =>
      within_call (hexists id rfl) fun _ => .ite (within_pure _) (within_pure _)
  | none =>
    exact within_call (hS _ rfl) fun _ => .ite (within_call (hS _ rfl) fun _ =>
      (within_ofExcept _).bind fun _ => (within_selectJournalsLoop hS ..).bind fun _ =>
      within_pure _) (within_pure _)

theorem within_requireNoUnfinishedJournal :
    Within S (requireNoUnfinishedJournal codec) := by
  have hselect : Within S (selectJournals codec none false) :=
    within_selectJournals hS false fun _ h => nomatch h
  refine hselect.bind fun ids => ?_
  induction ids with
  | nil => exact within_pure _
  | cons id rest ih => exact (within_loadJournal hS _).bind fun _ => .ite (within_throw _) ih

theorem within_readBootId : Within S readBootId :=
  within_call (hS _ rfl) fun _ => (within_ofExcept _).bind fun _ => within_pure _

theorem within_cleanupRuntime (id : String) : Within S (cleanupRuntime id) :=
  within_call (hS _ rfl) fun _ => within_ofExcept _

theorem within_replayJournal (accepted : Acceptance) :
    Within S (replayJournal codec accepted) := by
  refine (within_loadJournal hS _).bind fun existing => .ite (within_throw _)
    (.ite ?_ (within_throw _))
  unfold replayOutcome
  split
  · exact within_ofExcept _
  · exact within_throw _

theorem within_fileDigest (path : PathBuf) (operation : String) :
    Within S (fileDigest codec path operation) :=
  within_call (hS _ rfl) fun _ => (within_ofExcept _).bind fun _ => within_pure _

theorem within_verifyIdentity (receipt : BuildReceipt) :
    Within S (receipt.verifyIdentity codec) :=
  .ite (within_throw _) <| .ite (within_throw _) <| .ite (within_throw _) <|
    within_call (hS _ rfl) fun _ => (within_ofExcept _).bind fun _ =>
    (within_fileDigest hS ..).bind fun _ => .ite (within_throw _) <|
    .ite (within_throw _) (within_pure _)

theorem within_loadReceipt (path : PathBuf) : Within S (loadReceipt codec path) := by
  have hverify : ∀ receipt : BuildReceipt, Within S (receipt.verify codec) := fun receipt =>
    (within_verifyIdentity hS receipt).bind fun _ => (within_fileDigest hS ..).bind fun _ =>
      .ite (within_throw _) (within_pure _)
  exact within_call (hS _ rfl) fun _ => (within_ofExcept _).bind fun _ =>
    (within_ofExcept _).bind fun receipt => (hverify receipt).bind fun _ => within_pure _

theorem within_acceptSnapshots (hwrite : ∀ path bytes, S (.atomicWrite path bytes))
    (accepted : Acceptance) : Within S (acceptSnapshots codec accepted) :=
  within_call (hS _ rfl) fun _ => (within_ofExcept _).bind fun _ =>
    within_call (hwrite _ _) fun _ => (within_ofExcept _).bind fun _ =>
    (within_fileDigest hS ..).bind fun _ => .ite (within_throw _) <|
    (within_loadReceipt hS _).bind fun _ => .ite (within_throw _) <|
    within_call (hS _ rfl) fun _ => (within_ofExcept _).bind fun _ =>
    within_call (hwrite _ _) fun _ => (within_ofExcept _).bind fun _ =>
    within_call (hS _ rfl) fun _ => (within_ofExcept _).bind fun _ =>
    (within_fileDigest hS ..).bind fun _ => .ite (within_throw _) (within_pure _)

theorem within_enterStateDirectory (hlock : ∀ wait, S (.lockFor wait)) (hinactive : S .requireInactive)
    (wait : Bool) : Within S (enterStateDirectory wait) := by
  have hsecure : Within S secureStateDirectory :=
    within_call (hS _ rfl) fun _ => (within_ofExcept _).bind fun _ =>
      within_call (hS _ rfl) fun _ => (within_ofExcept _).bind fun _ => .ite (within_throw _) <|
      within_call (hS _ rfl) fun _ => .ite (within_throw _) (within_pure _)
  exact within_call (hS _ rfl) fun _ => (within_ofExcept _).bind fun _ => hsecure.bind fun _ =>
    within_call (hlock wait) fun _ => (within_ofExcept _).bind fun _ => within_call hinactive fun _ =>
    within_ofExcept _

theorem within_acceptRequest (hlock : ∀ wait, S (.lockFor wait)) (hinactive : S .requireInactive)
    (request : RunRequest) : Within S (acceptRequest codec request) := by
  refine (within_enterStateDirectory hS hlock hinactive false).bind fun _ => ?_
  refine within_call (hS _ rfl) fun _ => (within_ofExcept _).bind fun _ => ?_
  refine (within_loadReceipt hS _).bind fun _ => within_call (hS _ rfl) fun _ => ?_
  refine (within_ofExcept _).bind fun _ => (within_fileDigest hS _ _).bind fun _ => ?_
  refine Within.bind ?_ fun _ => Within.bind (.ite (within_pure _) (within_throw _)) fun _ =>
    within_pure _
  cases request.operationId with
  | none => exact within_ask (hS _ rfl)
  | some id => exact within_pure _

end Quiet

/-- Only quiet calls, sysfs writes and records of one request, which pass their own check. -/
structure Permits (codec : Codec) (S : HostOp → Prop) (id : String) (request : Request) : Prop where
  quiet : ∀ op : HostOp, op.quiet = true → S op
  write : ∀ path contents, S (.write path contents)
  record : ∀ j : Journal, j.request = request → j.validate codec = .ok () → S (.writeJournal id j)

section Permits

variable {id : String} {j : Journal}

theorem within_storeJournal (hrecord : j.validate codec = .ok () → S (.writeJournal id j)) :
    Within S (storeJournal codec id j) := by
  unfold storeJournal
  cases hvalid : j.validate codec with
  | ok u => exact within_call (hrecord hvalid) fun _ => within_ofExcept _
  | error e => exact within_throw _

theorem Permits.push (h : Permits codec S id j.request) (stage : Stage) (a : Actor) (millis : ℕ) :
    Permits codec S id (j.push stage a millis).request := h

theorem Permits.store (h : Permits codec S id j.request) : Within S (storeJournal codec id j) :=
  within_storeJournal (h.record j rfl)

theorem Permits.writeBit (h : Permits codec S id j.request) (path : PathBuf) (v : String) :
    Within S (writeBit path v) :=
  within_call (h.write _ _) fun _ => (within_ofExcept _).bind fun _ =>
    (within_readBit h.quiet _).bind fun _ => .ite (within_throw _) (within_pure _)

theorem Permits.apply (h : Permits codec S id j.request) (root : PathBuf) (es : List IdleEntry) :
    Within S (apply root es) := by
  refine (within_validateInventory h.quiet ..).bind fun _ => ?_
  induction es with
  | nil => exact within_pure _
  | cons e rest ih =>
    exact (within_readBit h.quiet _).bind fun _ => .ite (within_throw _)
      ((h.writeBit _ _).bind fun _ => ih)

theorem Permits.restoreConflict (h : Permits codec S id j.request) (e : IdleEntry)
    (expected actual : String) : Within S (restoreConflict codec id j e expected actual) :=
  within_actorTransition h.quiet fun _ _ => (h.push ..).store.bind fun _ => within_throw _

theorem Permits.restoreCheck (h : Permits codec S id j.request) (es : List IdleEntry) :
    Within S (restoreCheck codec id j es) := by
  induction es with
  | nil => exact within_pure _
  | cons e rest ih =>
    exact (within_readBit h.quiet _).bind fun _ => .ite (h.restoreConflict ..) ih

theorem Permits.restoreWrite (h : Permits codec S id j.request) (es : List IdleEntry) :
    Within S (restoreWrite codec id j es) := by
  induction es with
  | nil => exact within_pure _
  | cons e rest ih =>
    exact (within_readBit h.quiet _).bind fun _ => .ite (h.restoreConflict ..)
      (.ite ((h.writeBit _ _).bind fun _ => ih) ih)

theorem Permits.restoreVerify (h : Permits codec S id j.request) (es : List IdleEntry) :
    Within S (restoreVerify codec id j es) := by
  induction es with
  | nil => exact within_pure _
  | cons e rest ih =>
    exact (within_readBit h.quiet _).bind fun _ => .ite (h.restoreConflict ..) ih

theorem Permits.restore (h : Permits codec S id j.request) (root : PathBuf) :
    Within S (restore codec root id j) := by
  refine (within_validateInventory h.quiet ..).bind fun _ => (h.restoreCheck _).bind fun _ => ?_
  refine within_actorTransition h.quiet fun a millis => ?_
  have h' := h.push .restoring a millis
  refine h'.store.bind fun _ => (h'.restoreWrite _).bind fun _ => ?_
  refine (within_validateInventory h.quiet ..).bind fun _ => (h'.restoreVerify _).bind fun _ => ?_
  exact within_actorTransition h.quiet fun _ _ => (h'.push ..).store

/-- Reconciling the outcome keeps to the permitted calls when the rest does. -/
theorem Permits.reconcileRuntimeOutcome (h : Permits codec S id j.request) {f : Journal → Bench α}
    (hf : ∀ j' : Journal, j'.request = j.request → Within S (f j')) :
    Within S (reconcileRuntimeOutcome codec id j >>= f) := by
  have houtcome : Within S (recoverOutcome j.operationId) := by
    refine within_call (h.quiet _ rfl) fun _ => (within_ofExcept _).bind fun outcome => ?_
    cases outcome with
    | some outcome => exact within_pure _
    | none =>
      exact within_call (h.quiet _ rfl) fun _ => (within_ofExcept _).bind fun _ => within_pure _
  refine Within.bind_gives (R := fun j' => j'.request = j.request) ?_ ?_ hf
  · refine .ite (houtcome.bind fun outcome => ?_) (within_pure _)
    cases outcome with
    | some outcome =>
      have hstore : Within S (storeJournal codec id
          { j with outcome := some (terminalOutcome outcome) }) := within_storeJournal (h.record _ rfl)
      exact hstore.bind fun _ => within_pure _
    | none => exact within_pure _
  · unfold Benchctl.reconcileRuntimeOutcome
    split
    · refine gives_bind fun outcome => ?_
      cases outcome with
      | some outcome => exact gives_bind fun _ => gives_pure rfl
      | none => exact gives_pure rfl
    · exact gives_pure rfl

theorem Permits.finishRun (h : Permits codec S j.operationId j.request) (request : RunRequest)
    (coordinator : Actor) (outcome : Outcome) :
    Within S (finishRun codec request coordinator j outcome) := by
  have h₁ : Permits codec S j.operationId
      ({ j with outcome := some (terminalOutcome outcome) } : Journal).request := h
  refine within_transition h.quiet fun finished => within_actorTransition h.quiet fun a millis => ?_
  have h₂ := (h₁.push .workloadFinished coordinator finished).push .draining a millis
  exact h₂.store.bind fun _ => (h₂.restore _).bind fun _ =>
    (within_cleanupRuntime h.quiet _).bind fun _ => within_ofExcept _

end Permits

theorem within_recoverJournal (h : ∀ id request, Permits codec S id request) (root : PathBuf)
    (id : String) : Within S (recoverJournal codec root id) := by
  have hquiet := (h "" ⟨⟨false, []⟩, ⟨false, []⟩, "", ⟨false, []⟩, "", [], 0, [], ⟨0, 0⟩⟩).quiet
  exact (within_loadJournal hquiet _).bind fun j => .ite (within_cleanupRuntime hquiet _) <|
    (within_readBootId hquiet).bind fun _ => .ite (within_throw _) <|
    (h id j.request).reconcileRuntimeOutcome fun j' _ => ((h id j'.request).restore _).bind
    fun _ => within_cleanupRuntime hquiet _

/-- A recovery keeps to the permitted calls. -/
theorem within_recoverSelected (h : ∀ id request, Permits codec S id request)
    (hexists : ∀ id, S (.journalExists id)) (root : PathBuf) (operationId : Option String) :
    Within S (do
      match ← selectJournals codec operationId true with
      | [operationId] => recoverJournal codec root operationId
      | [] => throw (.state "there is no recoverable operation")
      | _ => throw (.state "more than one operation is recoverable; provide an operation ID")) := by
  have hquiet := (h "" ⟨⟨false, []⟩, ⟨false, []⟩, "", ⟨false, []⟩, "", [], 0, [], ⟨0, 0⟩⟩).quiet
  refine (within_selectJournals hquiet true fun id _ => hexists id).bind fun ids => ?_
  match ids with
  | [id] => exact within_recoverJournal h root id
  | [] => exact within_throw _
  | _ :: _ :: _ => exact within_throw _

end Snoozer.Benchctl
