import Snoozer.CpuIdleRun
import Mathlib.Logic.Function.Basic
import Mathlib.Data.List.Nodup

/-! The host that the coordinator's calls act on: sysfs contents and durable journals
of one pair of roots, with I/O errors and foreign writers as options, and what the
read-only parts of the coordinator see of it. -/
namespace Snoozer.Benchctl
open Interactive Fallible

/-- What no invocation changes: the tree under the sysfs root, the boot file and the user. -/
structure Host where
  symlink : PathBuf → Option Bool
  listing : PathBuf → Option (List String)
  bootId : String
  uid : ℕ

abbrev Sysfs := PathBuf → Option String

/-- The value of a file is its trimmed content. -/
def value (sysfs : Sysfs) (path : PathBuf) : Option String := (sysfs path).map trim

/-- `before` and `entered` are history: the sysfs contents when an operation was first
journalled, and the operations for which `coordinate` was entered. -/
structure HostState where
  sysfs : Sysfs
  journals : String → Option Journal
  before : String → Option Sysfs
  entered : List String

namespace HostState

def initial (sysfs : Sysfs) : HostState := ⟨sysfs, fun _ => none, fun _ => none, []⟩

def setSysfs (s : HostState) (path : PathBuf) (contents : Option String) : HostState :=
  { s with sysfs := Function.update s.sysfs path contents }

def store (s : HostState) (operationId : String) (journal : Journal) : HostState :=
  { s with
    journals := Function.update s.journals operationId (some journal)
    before := Function.update s.before operationId
      (some ((s.before operationId).getD s.sysfs)) }

def enter (s : HostState) (operationId : String) : HostState :=
  { s with entered := s.entered ++ [operationId] }

@[simp] theorem setSysfs_journals (s : HostState) (path : PathBuf) (contents : Option String) :
    (s.setSysfs path contents).journals = s.journals := rfl

@[simp] theorem setSysfs_before (s : HostState) (path : PathBuf) (contents : Option String) :
    (s.setSysfs path contents).before = s.before := rfl

@[simp] theorem setSysfs_entered (s : HostState) (path : PathBuf) (contents : Option String) :
    (s.setSysfs path contents).entered = s.entered := rfl

@[simp] theorem setSysfs_self (s : HostState) (path : PathBuf) (contents : Option String) :
    (s.setSysfs path contents).sysfs path = contents := Function.update_self ..

theorem setSysfs_of_ne (s : HostState) {path other : PathBuf} (h : other ≠ path)
    (contents : Option String) : (s.setSysfs path contents).sysfs other = s.sysfs other :=
  Function.update_of_ne h ..

@[simp] theorem store_sysfs (s : HostState) (operationId : String) (journal : Journal) :
    (s.store operationId journal).sysfs = s.sysfs := rfl

@[simp] theorem store_entered (s : HostState) (operationId : String) (journal : Journal) :
    (s.store operationId journal).entered = s.entered := rfl

@[simp] theorem store_self (s : HostState) (operationId : String) (journal : Journal) :
    (s.store operationId journal).journals operationId = some journal := Function.update_self ..

theorem store_of_ne (s : HostState) {operationId other : String} (h : other ≠ operationId)
    (journal : Journal) : (s.store operationId journal).journals other = s.journals other :=
  Function.update_of_ne h ..

@[simp] theorem store_before_self (s : HostState) (operationId : String) (journal : Journal) :
    (s.store operationId journal).before operationId =
      some ((s.before operationId).getD s.sysfs) := Function.update_self ..

theorem store_before_of_ne (s : HostState) {operationId other : String} (h : other ≠ operationId)
    (journal : Journal) : (s.store operationId journal).before other = s.before other :=
  Function.update_of_ne h ..

@[simp] theorem enter_sysfs (s : HostState) (operationId : String) :
    (s.enter operationId).sysfs = s.sysfs := rfl

@[simp] theorem enter_journals (s : HostState) (operationId : String) :
    (s.enter operationId).journals = s.journals := rfl

/-- Only finitely many operations have a journal. -/
def FinitelyMany (s : HostState) : Prop :=
  ∃ ids : List String, ids.Nodup ∧ ∀ id, id ∈ ids ↔ (s.journals id).isSome

theorem FinitelyMany.store {s : HostState} (h : s.FinitelyMany) (operationId : String)
    (journal : Journal) : (s.store operationId journal).FinitelyMany := by
  obtain ⟨ids, hnodup, hmem⟩ := h
  refine ⟨ids.insert operationId, List.Nodup.insert hnodup, fun id => ?_⟩
  rw [List.mem_insert_iff]
  by_cases hid : id = operationId
  · subst hid
    simp
  · rw [store_of_ne s hid, hmem]
    exact ⟨fun h => h.resolve_left hid, Or.inr⟩

end HostState

/-- An answer with a good value, or an error where one is possible. -/
def Answered {ε α : Type} (faults : Bool) (good : α → Prop) (bad : Prop) : Except ε α → Prop
  | .ok a => good a
  | .error _ => faults = true ∨ bad

/-- The entries that a directory iterator hands out; a fault may cut in anywhere. -/
def Listed (faults : Bool) (good : List String → Prop) (entries : List (Except IoError String)) :
    Prop :=
  (∃ names, entries = names.map .ok ∧ good names) ∨ faults = true ∧ ∃ e, .error e ∈ entries

/-- One atomic change: with a fault it reports an error, and may or may not have happened. -/
def Changed {ε : Type} (faults : Bool) (s t : HostState) : Except ε Unit → HostState → Prop
  | .ok _, s' => s' = t
  | .error _, s' => faults = true ∧ (s' = s ∨ s' = t)

/-- The calls that only acceptance and supervision make may get any answer. Every result may be
an error with `faults`; the two `path.exists()`, which have no result, are answered rightly. -/
def Host.act (host : Host) (faults : Bool) :
    (op : HostOp) → HostState → HostAns op → HostState → Prop
  | .createStateRoot, s, x, s' => Answered faults (fun _ => True) False x ∧ s' = s
  | .secureStateRoot _, s, x, s' => Answered faults (fun _ => True) False x ∧ s' = s
  | .lockFor _, s, x, s' => Answered faults (fun _ => True) False x ∧ s' = s
  | .requireInactive, s, x, s' => Answered faults (fun _ => True) False x ∧ s' = s
  | .readOutcome _, s, x, s' => Answered faults (fun _ => True) False x ∧ s' = s
  | .readStatus _, s, x, s' => Answered faults (fun _ => True) False x ∧ s' = s
  | .removeRuntime _, s, x, s' => Answered faults (fun _ => True) False x ∧ s' = s
  | .stateRootExists, s, x, s' => x = true ∧ s' = s
  | .stateRootMetadata, s, x, s' =>
    Answered faults (fun m => faults = true ∨
      m.isSymlink = false ∧ m.isDir = true ∧ m.uid = host.uid ∧ m.mode % 0o1000 = 0o700) False x ∧
      s' = s
  | .actor, s, x, s' => (faults = true ∨ x.uid = host.uid) ∧ s' = s
  | .bootId, s, x, s' => Answered faults (fun c => c = host.bootId) False x ∧ s' = s
  | .journalExists id, s, x, s' => x = (s.journals id).isSome ∧ s' = s
  | .readJournal id, s, x, s' =>
    Answered faults (fun j => s.journals id = some j) (s.journals id = none) x ∧ s' = s
  | .writeJournal id j, s, x, s' => Changed faults s (s.store id j) x s'
  | .listJournals, s, x, s' =>
    Answered faults (Listed faults fun ids =>
      ids.Nodup ∧ ∀ id, id ∈ ids ↔ (s.journals id).isSome) False x ∧ s' = s
  | .symlinkMetadata p, s, x, s' =>
    Answered faults (fun b => host.symlink p = some b) (host.symlink p = none) x ∧ s' = s
  | .readDir p, s, x, s' =>
    Answered faults (Listed faults fun names => host.listing p = some names)
      (host.listing p = none) x ∧ s' = s
  | .readToString p, s, x, s' =>
    Answered faults (fun c => s.sysfs p = some c) (s.sysfs p = none) x ∧ s' = s
  | .write p c, s, x, s' => Changed faults s (s.setSysfs p (some c)) x s'
  | .coordinate request, s, _, s' => s' = s.enter request.operationId
  | .invokingActor, s, _, s' => s' = s
  | .nowMillis, s, _, s' => s' = s
  | .newOperationId, s, _, s' => s' = s
  | .readFile _, s, _, s' => s' = s
  | .atomicWrite _ _, s, _, s' => s' = s
  | .setPermissions _ _, s, _, s' => s' = s
  | .currentExe, s, _, s' => s' = s
  | .verifyCheckout _ _, s, _, s' => s' = s
  | .clientWatch _, s, _, s' => s' = s
  | .pauseAfterExecutableSnapshot, s, _, s' => s' = s

/-- Calls that leave journals and entries alone. -/
theorem act_keeps_journals {host : Host} {faults : Bool} {op : HostOp} {s s' : HostState}
    {x : HostAns op} (h : host.act faults op s x s') (hstore : ∀ id j, op ≠ .writeJournal id j)
    (hcoordinate : ∀ request, op ≠ .coordinate request) :
    s'.journals = s.journals ∧ s'.entered = s.entered := by
  cases op with
  | writeJournal id j => exact absurd rfl (hstore id j)
  | coordinate request => exact absurd rfl (hcoordinate request)
  | write path contents =>
    cases x with
    | ok u =>
      have h : s' = s.setSysfs path (some contents) := h
      rw [h]
      exact ⟨rfl, rfl⟩
    | error e =>
      obtain ⟨_, rfl | rfl⟩ := h
      · exact ⟨rfl, rfl⟩
      · exact ⟨rfl, rfl⟩
  | invokingActor => cases h; exact ⟨rfl, rfl⟩
  | nowMillis => cases h; exact ⟨rfl, rfl⟩
  | newOperationId => cases h; exact ⟨rfl, rfl⟩
  | readFile path => cases h; exact ⟨rfl, rfl⟩
  | atomicWrite path bytes => cases h; exact ⟨rfl, rfl⟩
  | setPermissions path mode => cases h; exact ⟨rfl, rfl⟩
  | currentExe => cases h; exact ⟨rfl, rfl⟩
  | verifyCheckout receipt actor => cases h; exact ⟨rfl, rfl⟩
  | clientWatch pid => cases h; exact ⟨rfl, rfl⟩
  | pauseAfterExecutableSnapshot => cases h; exact ⟨rfl, rfl⟩
  | _ => obtain ⟨_, rfl⟩ := h; exact ⟨rfl, rfl⟩

/-- The coordinator's calls on the host, alone or with somebody else writing sysfs. -/
def Host.machine (host : Host) (faults external : Bool) : Machine HostOp HostAns HostState where
  act := host.act faults
  env s s' := external = true ∧ ∃ path contents, s' = s.setSysfs path contents

theorem Host.closed (host : Host) (faults : Bool) : Closed (host.machine faults false) :=
  fun _ _ h => Bool.noConfusion h.1

/-- The calls that read the sysfs tree, as the state answers them. -/
def Host.look (host : Host) (s : HostState) : (op : HostOp) → Option (HostAns op)
  | .symlinkMetadata p => (host.symlink p).map Except.ok
  | .readDir p => (host.listing p).map fun names => .ok (names.map .ok)
  | .readToString p => (s.sysfs p).map Except.ok
  | _ => none

section Reads

variable (host : Host) (faults : Bool)

/-- The reads of the coordinator, seen through `Host.look`. -/
abbrev Looks {α : Type} (p : Bench α) : Prop :=
  ReadsAs (host.machine faults false) (faults = true) host.look p

variable {host faults}

theorem looks_ofExcept {α : Type} (r : Except BenchError α) : Looks host faults (ofExcept r) := by
  cases r with
  | ok a => exact (host.closed faults).readsAs_pure a
  | error e => exact (host.closed faults).readsAs_throw e

theorem fails_ioResult {α β : Type} (operation : String) (e : IoError) (g : α → Bench β) :
    Fails (host.machine faults false) (ioResult operation (.error e) >>= g) :=
  (host.closed faults).fails_bind ((host.closed faults).fails_throw (BenchError.io operation e))

theorem looks_ioResult {α β : Type} (operation : String) (r : Except IoError α) {g : α → Bench β}
    (hg : ∀ a, Looks host faults (g a)) : Looks host faults (ioResult operation r >>= g) :=
  (host.closed faults).readsAs_bind (looks_ofExcept _) hg

/-- A program that looks on after a `symlink_metadata` looks. -/
theorem looks_symlinkMetadata {β : Type} (operation : String) (path : PathBuf)
    {g : Bool → Bench β} (hg : ∀ b, Looks host faults (g b)) :
    Looks host faults (do g (← ioResult operation (← ask (.symlinkMetadata path)))) := by
  refine (host.closed faults).readsAs_call ?_ fun x => looks_ioResult operation x hg
  rintro s x s' ⟨hx, rfl⟩
  refine ⟨rfl, ?_⟩
  cases x with
  | ok b =>
    have hx : host.symlink path = some b := hx
    exact Or.inl (by simp [Host.look, hx])
  | error e =>
    refine Or.inr ⟨Or.imp_right (fun h => ?_) hx, fails_ioResult _ _ _⟩
    have h : host.symlink path = none := h
    simp [Host.look, h]

/-- A program that looks on after a read looks. -/
theorem looks_readToString {β : Type} (operation : String) (path : PathBuf)
    {g : String → Bench β} (hg : ∀ c, Looks host faults (g c)) :
    Looks host faults (do g (← ioResult operation (← ask (.readToString path)))) := by
  refine (host.closed faults).readsAs_call ?_ fun x => looks_ioResult operation x hg
  rintro s x s' ⟨hx, rfl⟩
  refine ⟨rfl, ?_⟩
  cases x with
  | ok c =>
    have hx : s'.sysfs path = some c := hx
    exact Or.inl (by simp [Host.look, hx])
  | error e =>
    refine Or.inr ⟨Or.imp_right (fun h => ?_) hx, fails_ioResult _ _ _⟩
    have h : s'.sysfs path = none := h
    simp [Host.look, h]

theorem looks_rejectSymlink (path : PathBuf) : Looks host faults (rejectSymlink path) :=
  looks_symlinkMetadata _ _ fun _ =>
    .ite ((host.closed faults).readsAs_throw _) ((host.closed faults).readsAs_pure _)

theorem looks_readTrimmed (path : PathBuf) (operation : String) :
    Looks host faults (readTrimmed path operation) :=
  looks_readToString _ _ fun _ => (host.closed faults).readsAs_pure _

theorem looks_readBit (path : PathBuf) : Looks host faults (readBit path) :=
  (host.closed faults).readsAs_bind (looks_readTrimmed _ _) fun _ =>
    .ite ((host.closed faults).readsAs_throw _) ((host.closed faults).readsAs_pure _)

/-- An inventory item is made by looking only. -/
theorem looks_inventoryItem (cpu : ℕ) (root : PathBuf) (fileName : String) :
    Looks host faults (inventoryItem cpu root fileName) := by
  have hM := host.closed faults
  unfold inventoryItem
  split
  · exact hM.readsAs_pure _
  · split
    · exact hM.readsAs_throw _
    · exact hM.readsAs_bind (looks_rejectSymlink _) fun _ =>
        hM.readsAs_bind (looks_rejectSymlink _) fun _ =>
        hM.readsAs_bind (looks_rejectSymlink _) fun _ =>
        hM.readsAs_bind (looks_readTrimmed _ _) fun _ =>
        hM.readsAs_bind (looks_readBit _) fun _ => hM.readsAs_pure _

theorem looks_inventoryItems (cpu : ℕ) (root : PathBuf) (items : List (Except IoError String))
    (scan : CpuScan) : Looks host faults (inventoryItems cpu root items scan) := by
  induction items generalizing scan with
  | nil => exact (host.closed faults).readsAs_pure _
  | cons item rest ih =>
    refine looks_ioResult _ item fun fileName => ?_
    refine (host.closed faults).readsAs_bind (looks_inventoryItem _ _ _) fun entry => ?_
    cases entry with
    | none => exact ih scan
    | some entry => exact ih (scan.push entry)

/-- A directory entry that cannot be read ends the inventory. -/
theorem fails_inventoryItems (cpu : ℕ) (root : PathBuf) (items : List (Except IoError String))
    (scan : CpuScan) (hitems : ∃ e, .error e ∈ items) :
    Fails (host.machine faults false) (inventoryItems cpu root items scan) := by
  induction items generalizing scan with
  | nil => simp at hitems
  | cons item rest ih =>
    cases item with
    | error e => exact fails_ioResult _ _ _
    | ok fileName =>
      have hrest : ∃ e, .error e ∈ rest := by simpa using hitems
      refine (looks_ofExcept _).fails_bind (host.closed faults) fun fileName => ?_
      refine (looks_inventoryItem _ _ _).fails_bind (host.closed faults) fun entry => ?_
      cases entry with
      | none => exact ih scan hrest
      | some entry => exact ih (scan.push entry) hrest

/-- A processor's inventory is made by looking only. -/
theorem looks_inventoryCpu (sysfsRoot : PathBuf) (cpu : ℕ) :
    Looks host faults (inventoryCpu sysfsRoot cpu) := by
  have hM := host.closed faults
  refine hM.readsAs_bind (looks_rejectSymlink _) fun _ =>
    hM.readsAs_bind (looks_rejectSymlink _) fun _ => hM.readsAs_call ?_ fun x =>
    looks_ioResult _ x fun items => hM.readsAs_bind (looks_inventoryItems _ _ _ _) fun scan =>
    .ite (hM.readsAs_throw _) (hM.readsAs_pure _)
  rintro s x s' ⟨hx, rfl⟩
  refine ⟨rfl, ?_⟩
  cases x with
  | ok items =>
    rcases hx with ⟨names, rfl, hnames⟩ | ⟨hfaults, herr⟩
    · exact Or.inl (by simp [Host.look, hnames])
    · refine Or.inr ⟨Or.inl hfaults, ?_⟩
      rw [ioResult_ok_bind]
      exact hM.fails_bind (fails_inventoryItems _ _ items _ herr)
  | error e =>
    refine Or.inr ⟨Or.imp_right (fun h => ?_) hx, fails_ioResult _ _ _⟩
    have h : host.listing _ = none := h
    simp [Host.look, h]

theorem looks_inventory (sysfsRoot : PathBuf) (cpus : List ℕ) :
    Looks host faults (inventory sysfsRoot cpus) := by
  induction cpus with
  | nil => exact (host.closed faults).readsAs_pure _
  | cons cpu rest ih =>
    exact (host.closed faults).readsAs_bind (looks_inventoryCpu _ _) fun _ =>
      (host.closed faults).readsAs_bind ih fun _ => (host.closed faults).readsAs_pure _

theorem looks_validateInventory (sysfsRoot : PathBuf) (recorded : List IdleEntry) :
    Looks host faults (validateInventory sysfsRoot recorded) :=
  (host.closed faults).readsAs_bind (looks_inventory _ _) fun _ =>
    .ite ((host.closed faults).readsAs_throw _) ((host.closed faults).readsAs_pure _)

end Reads

end Snoozer.Benchctl
