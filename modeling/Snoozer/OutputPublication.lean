import Snoozer.OutputProtocol
import Snoozer.FileEntries

/-! Benchmark output is published completely or not at all: any number of values, in any interleaving
and whatever fails, leave every file as it was, except for renames of their own that leave exactly
the bytes a value has accepted and for partial files that could not be removed. -/
namespace Snoozer
open Interactive DurableStore
open Benchctl (PathBuf Bytes)

namespace FsState

/-- The file at a path. -/
def fileAt (s : FsState) (location : List String) : Option ℕ := s.store.now.fileAt location

def bytes (s : FsState) (inode : ℕ) : Bytes := (s.store.file inode).bytes

/-- The same files at the same paths. -/
structure SameFiles (s s' : FsState) : Prop where
  fileAt : s'.fileAt = s.fileAt
  bytes : s'.bytes = s.bytes
  handles : s'.handles = s.handles

end FsState

section Files

variable {temporary : String → Prop} {s s' : FsState} {inode n : ℕ} {path source target : PathBuf}
  {bytes : Bytes}

theorem read_location (s : FsState) (location : List String) :
    s.store.now.read location = (s.fileAt location).map s.bytes :=
  View.read_eq _ _

theorem FsState.SameFiles.refl (s : FsState) : s.SameFiles s := ⟨rfl, rfl, rfl⟩

theorem fileAt_of_vacant {location : List String} (h : s.Vacant location) :
    s.fileAt location = none := by
  cases location with
  | nil => exact h.elim
  | cons name dir => exact View.fileAt_of_entry ((View.entry_cons h.1).trans h.2) (by intro i h; cases h)

/-- Making a directory leaves the files as they are. -/
theorem sameFiles_createDir {x : Except FsError Unit}
    (h : FsState.act temporary (.createDir path) s x s') : s.SameFiles s' := by
  cases x with
  | error e =>
    cases h
    exact .refl s
  | ok u =>
    obtain ⟨hvacant, rfl⟩ := h
    cases hlocation : path.location with
    | nil => exact .refl s
    | cons name dir =>
      rw [hlocation] at hvacant
      exact ⟨funext fun p => Store.fileAt_makeDirectory hvacant.1 hvacant.2 p, rfl, rfl⟩

theorem sameFiles_syncDir {handle : List String} {x : Except FsError Unit}
    (h : FsState.act temporary (.syncDir handle) s x s') : s.SameFiles s' := by
  cases x with
  | error e =>
    cases h
    exact .refl s
  | ok u =>
    cases h
    exact ⟨funext fun p => Store.fileAt_syncDirectory s.store handle p, rfl, rfl⟩

theorem sameFiles_openDir {x : Except FsError (List String)}
    (h : FsState.act temporary (.openDir path) s x s') : s.SameFiles s' := by
  cases x with
  | error e =>
    cases h
    exact .refl s
  | ok handle =>
    obtain ⟨-, -, rfl⟩ := h
    exact .refl s'

/-- Syncing a file leaves the files as they are. -/
theorem sameFiles_syncFile {x : Except FsError Unit}
    (h : FsState.act temporary (.syncFile inode) s x s') : s.SameFiles s' := by
  cases x with
  | error e =>
    cases h
    exact .refl s
  | ok u =>
    cases h
    refine ⟨funext fun p => Store.fileAt_setFile .., funext fun i => ?_, rfl⟩
    change (Function.update s.store.file inode ⟨(s.store.file inode).bytes, true⟩ i).bytes =
      (s.store.file i).bytes
    by_cases hi : i = inode
    · subst hi
      rw [Function.update_self]
    · rw [Function.update_of_ne hi]

theorem bytes_setFile (store : Store String UInt8) (inode : ℕ) (data : FileData UInt8) :
    (fun i => ((store.setFile inode data).file i).bytes) =
      Function.update (fun i => (store.file i).bytes) inode data.bytes := by
  funext i
  change (Function.update store.file inode data i).bytes = _
  by_cases hi : i = inode
  · subst hi
    rw [Function.update_self, Function.update_self]
  · rw [Function.update_of_ne hi, Function.update_of_ne hi]

/-- A write adds to its file. -/
theorem files_write (h : FsState.act temporary (.write inode bytes) s (.ok n) s') :
    s'.fileAt = s.fileAt ∧ s'.handles = s.handles ∧
      s'.bytes = Function.update s.bytes inode (s.bytes inode ++ bytes.take n) := by
  obtain ⟨-, rfl⟩ := h
  exact ⟨funext fun p => Store.fileAt_setFile .., rfl, bytes_setFile s.store inode _⟩

/-- A new file is empty and stands at its path only. -/
theorem files_createNew (h : FsState.act temporary (.createNew path) s (.ok inode) s') :
    s.fileAt path.location = none ∧ inode ∉ s.handles ∧ (∀ p, s.fileAt p ≠ some inode) ∧
      s'.handles = inode :: s.handles ∧
      s'.fileAt = Function.update s.fileAt path.location (some inode) ∧
      s'.bytes = Function.update s.bytes inode [] := by
  obtain ⟨hvacant, hfresh, rfl⟩ := h
  have hnone := fileAt_of_vacant hvacant
  refine ⟨hnone, hfresh.2, ?_, rfl, ?_, ?_⟩
  · intro p hp
    have hentry := View.fileAt_eq_some.mp hp
    cases p with
    | nil => cases hentry
    | cons name dir =>
      by_cases hdir : s.store.now.entry dir = some .directory
      · rw [View.entry_cons hdir] at hentry
        exact hfresh.1 dir _ (s.store.directory dir).image_current name hentry
      · rw [View.entry_cons_of_ne hdir] at hentry
        cases hentry
  · cases hlocation : path.location with
    | nil =>
      rw [hlocation] at hvacant
      exact hvacant.elim
    | cons name dir =>
      rw [hlocation] at hvacant
      have hdir : (s.store.setFile inode ⟨[], false⟩).now.entry dir = some .directory := by
        rw [← hvacant.1]
        exact View.entry_congr fun _ _ _ => rfl
      have hchanged := Store.fileAt_changeDirectory_single name (some (.file inode)) hdir
        (by
          rw [View.entry_cons hdir]
          intro hname
          cases hvacant.2.symm.trans hname)
        (by intro h; cases h)
      have hsame : (s.store.setFile inode ⟨[], false⟩).now.fileAt = s.fileAt :=
        funext fun p => Store.fileAt_setFile ..
      rw [hsame] at hchanged
      exact hchanged
  · cases hlocation : path.location with
    | nil =>
      rw [hlocation] at hvacant
      exact hvacant.elim
    | cons name dir => exact bytes_setFile s.store inode ⟨[], false⟩

theorem entry_dir_of_fileAt {name : String} {dir : List String}
    (h : s.fileAt (name :: dir) = some inode) : s.store.now.entry dir = some .directory := by
  by_contra hdir
  have hentry := View.fileAt_eq_some.mp h
  rw [View.entry_cons_of_ne hdir] at hentry
  cases hentry

theorem entry_ne_directory_of_fileAt {location : List String}
    (h : s.fileAt location = some inode) : s.store.now.entry location ≠ some .directory := by
  intro hentry
  cases hentry.symm.trans (View.fileAt_eq_some.mp h)

/-- A file that is removed stands there no longer. -/
theorem files_removeFile (hfile : s.fileAt path.location = some inode)
    (h : FsState.act temporary (.removeFile path) s (.ok ()) s') :
    s'.fileAt = Function.update s.fileAt path.location none ∧ s'.bytes = s.bytes ∧
      s'.handles = s.handles := by
  obtain ⟨-, rfl⟩ := h
  cases hlocation : path.location with
  | nil =>
    rw [hlocation] at hfile
    cases hfile
  | cons name dir =>
    rw [hlocation] at hfile
    refine ⟨?_, rfl, rfl⟩
    exact Store.fileAt_changeDirectory_single name none (entry_dir_of_fileAt hfile)
      (entry_ne_directory_of_fileAt hfile) (by intro h; cases h)

/-- A file that stands there is not reported as missing. -/
theorem not_notFound (hpath : path.isEmpty = false) (hfile : s.fileAt path.location = some inode) :
    ¬ FsState.act temporary (.removeFile path) s (.error .notFound) s' := by
  intro h
  apply h.1 rfl inode
  rw [FsState.entry, hpath]
  exact View.fileAt_eq_some.mp hfile

/-- A rename moves its file. -/
theorem files_rename (hne : source.location ≠ target.location)
    (h : FsState.act temporary (.rename source target) s (.ok ()) s') :
    ∃ inode, s.fileAt source.location = some inode ∧ s'.bytes = s.bytes ∧
      s'.handles = s.handles ∧
      s'.fileAt = Function.update (Function.update s.fileAt source.location none)
        target.location (some inode) := by
  obtain ⟨dir, old, new, inode, hsource, htarget, hdir, hold, hnew, rfl⟩ := h
  rw [hsource, htarget] at hne ⊢
  have hfile : s.fileAt (old :: dir) = some inode := by
    apply View.fileAt_eq_some.mpr
    rw [View.entry_cons hdir]
    exact hold
  have hnames : old ≠ new := by
    rintro rfl
    exact hne rfl
  refine ⟨inode, hfile, rfl, rfl, ?_⟩
  apply Store.fileAt_rename hnames hdir (entry_ne_directory_of_fileAt hfile)
  rw [View.entry_cons hdir]
  exact hnew

end Files

end Snoozer

namespace Snoozer.WakeLatency
open Interactive Interactive.Fallible Interactive.Protocol DurableStore
open Benchctl (PathBuf Bytes)

/-- The files, and a record of all renames: whose it was and what its final path held then. -/
structure OutputWorld (ρ : Type) where
  fs : FsState
  publications : List (ρ × Option Bytes)

variable {ρ : Type}

def publicationsAfter (r : ρ) (fs : FsState) (publications : List (ρ × Option Bytes)) :
    (op : FsOp) → FsAns op → List (ρ × Option Bytes)
  | .rename _ target, (x : Except FsError Unit) => match x with
    | .ok () => publications ++ [(r, fs.read target)]
    | .error _ => publications
  | _, _ => publications

variable (ρ) in
/-- Any number of values, and nobody else. -/
def outputParties : Parties ρ FsOp FsAns (OutputWorld ρ) where
  act r op w x w' := FsState.act (fun _ => False) op w.fs x w'.fs ∧
    w'.publications = publicationsAfter r w'.fs w.publications op x
  env _ _ := False

section Claims

variable (outputs : ρ → OutputRequest)

/-- What the last rename to a path has left there. -/
def lastPublication (publications : List (ρ × Option Bytes)) (location : List String) :
    Option (Option Bytes) :=
  (publications.filter fun e => (outputs e.1).finalPath.location = location).getLast?.map (·.2)

/-- What a path holds if only renames have changed it. -/
def expected (s₀ : FsState) (publications : List (ρ × Option Bytes)) (location : List String) :
    Option Bytes :=
  (lastPublication outputs publications location).getD (s₀.store.now.read location)

/-- No value is to be published where another one may have its partial file. -/
def NamesApart : Prop :=
  ∀ r r' path, r ≠ r' → (outputs r').IsPartial path →
    path.location ≠ (outputs r).finalPath.location

end Claims

theorem expected_append_self (outputs : ρ → OutputRequest) (s₀ : FsState)
    (publications : List (ρ × Option Bytes)) (r : ρ) (content : Option Bytes) :
    expected outputs s₀ (publications ++ [(r, content)]) (outputs r).finalPath.location =
      content := by
  unfold expected lastPublication
  rw [List.filter_append, List.filter_singleton]
  simp

theorem expected_append_of_ne {outputs : ρ → OutputRequest} {s₀ : FsState} {r : ρ}
    {location : List String} (hne : location ≠ (outputs r).finalPath.location)
    (publications : List (ρ × Option Bytes)) (content : Option Bytes) :
    expected outputs s₀ (publications ++ [(r, content)]) location =
      expected outputs s₀ publications location := by
  unfold expected lastPublication
  rw [List.filter_append, List.filter_singleton]
  simp [Ne.symm hne]

section Partial

variable {request : OutputRequest} {path : PathBuf}

/-- A partial path lies beside the final one under another name. -/
theorem OutputRequest.IsPartial.cases (h : request.IsPartial path) :
    ∃ name partialName, request.finalPath.fileName = some name ∧ partialName ≠ name ∧
      partialName ≠ "." ∧ path = (outputParent request.finalPath).join partialName := by
  obtain ⟨partialId, hpath⟩ := h
  unfold partialOutputPath at hpath
  split at hpath
  · cases hpath
  · next name hname =>
    cases hpath
    have hlength : name.length + 9 ≤
        (s!".{name}.partial-{request.processId}-{partialId}").length := by
      have hmiddle : (toString ".partial-").length = 9 := by decide
      have hsame : (toString name).length = name.length := rfl
      simp only [String.length_append]
      omega
    refine ⟨name, _, hname, ?_, ?_, rfl⟩
    · intro heq
      rw [heq] at hlength
      omega
    · intro heq
      rw [heq] at hlength
      have hdot : ".".length = 1 := by decide
      omega

/-- A partial file stands beside its final path. -/
theorem OutputRequest.IsPartial.ne_final (h : request.IsPartial path) :
    path.location ≠ request.finalPath.location := by
  obtain ⟨name, partialName, hname, hne, hdot, rfl⟩ := h.cases
  rw [location_join _ hdot, location_outputParent hname]
  intro heq
  exact hne (List.cons.inj heq).1

theorem OutputRequest.IsPartial.isEmpty (h : request.IsPartial path) : path.isEmpty = false := by
  obtain ⟨name, partialName, -, -, -, rfl⟩ := h.cases
  simp [PathBuf.isEmpty, PathBuf.join]

end Partial

/-- The file that the value has reserved. -/
def OutputPhase.inode : OutputPhase → Option ℕ
  | .preparing => none
  | .reserved _ inode _ | .published inode _ | .gone inode => some inode

/-- Where its partial file stands. -/
def OutputPhase.place : OutputPhase → Option (List String)
  | .reserved path _ _ => some path.location
  | _ => none

/-- What has been published of the value. -/
def OutputPhase.content : OutputPhase → Option Bytes
  | .published _ written => some written
  | _ => none

/-- Where the file of the value may stand. -/
def OutputPhase.StandsAt (request : OutputRequest) (location : List String) : OutputPhase → Prop
  | .preparing | .gone _ => False
  | .reserved path _ _ => location = path.location
  | .published _ _ => location = request.finalPath.location

/-- What is known of one value. -/
structure ValueOk (request : OutputRequest) (r : ρ) (w : OutputWorld ρ) (φ : OutputPhase) :
    Prop where
  held : ∀ path inode written, φ = .reserved path inode written →
    request.IsPartial path ∧ w.fs.fileAt path.location = some inode ∧ w.fs.bytes inode = written
  stands : ∀ inode, φ.inode = some inode → ∀ location, w.fs.fileAt location = some inode →
    φ.StandsAt request location
  opened : ∀ inode, φ.inode = some inode → inode ∈ w.fs.handles
  logged : ∀ content, (r, content) ∈ w.publications ↔ φ.content.isSome ∧ content = φ.content

/-- No two values have the same file. -/
def Apart (φ : ρ → OutputPhase) : Prop :=
  ∀ r r' inode, (φ r).inode = some inode → (φ r').inode = some inode → r = r'

/-- Some value has its partial file there. -/
def Held (φ : ρ → OutputPhase) (location : List String) : Prop :=
  ∃ r, (φ r).place = some location

structure OutputsOk (outputs : ρ → OutputRequest) (s₀ : FsState) (φ : ρ → OutputPhase)
    (w : OutputWorld ρ) : Prop where
  values : ∀ r, ValueOk (outputs r) r w (φ r)
  apart : Apart φ
  once : (w.publications.map Prod.fst).Nodup
  reads : ∀ location, ¬ Held φ location →
    w.fs.store.now.read location = expected outputs s₀ w.publications location
  vacant : ∀ location, Held φ location → expected outputs s₀ w.publications location = none

/-- Before the first step nothing is reserved and every value is as it was. -/
theorem outputsOk_start (outputs : ρ → OutputRequest) (s₀ : FsState) :
    OutputsOk outputs s₀ (fun _ => .preparing) ⟨s₀, []⟩ where
  values r := by
    constructor
    · intro path inode written h
      cases h
    · intro inode h
      cases h
    · intro inode h
      cases h
    · simp [OutputPhase.content]
  apart r r' inode h := by cases h
  once := List.nodup_nil
  reads location _ := rfl
  vacant location h := by
    obtain ⟨r, hr⟩ := h
    cases hr

theorem place_eq_some {φ : OutputPhase} {location : List String} (h : φ.place = some location) :
    ∃ path inode written, φ = .reserved path inode written ∧ path.location = location := by
  cases φ with
  | reserved path inode written => exact ⟨path, inode, written, rfl, Option.some.inj h⟩
  | _ => cases h

section Values

variable {outputs : ρ → OutputRequest} {s₀ : FsState} {φ : ρ → OutputPhase}
  {w w' : OutputWorld ρ} {r : ρ} {path : PathBuf} {inode : ℕ} {written : Bytes}

/-- A step of others that leaves the file of a value alone. -/
theorem ValueOk.frame {request : OutputRequest} {phase : OutputPhase}
    (h : ValueOk request r w phase)
    (hheld : ∀ path i written, phase = .reserved path i written →
      w.fs.fileAt path.location = some i →
        w'.fs.fileAt path.location = some i ∧ w'.fs.bytes i = w.fs.bytes i)
    (hstands : ∀ i, phase.inode = some i → ∀ location, w'.fs.fileAt location = some i →
      w.fs.fileAt location = some i)
    (hhandles : ∀ i ∈ w.fs.handles, i ∈ w'.fs.handles)
    (hlogged : ∀ content, (r, content) ∈ w'.publications ↔ (r, content) ∈ w.publications) :
    ValueOk request r w' phase where
  held path i written hphase := by
    obtain ⟨hbeside, hfile, hcontent⟩ := h.held path i written hphase
    obtain ⟨hfile', hbytes⟩ := hheld path i written hphase hfile
    exact ⟨hbeside, hfile', hbytes.trans hcontent⟩
  stands i hphase location hfile := h.stands i hphase location (hstands i hphase location hfile)
  opened i hphase := hhandles i (h.opened i hphase)
  logged content := (hlogged content).trans (h.logged content)

theorem OutputsOk.inode_ne (h : OutputsOk outputs s₀ φ w) {r' : ρ} (hr' : r' ≠ r)
    (hinode : (φ r).inode = some inode) {i : ℕ} (hi : (φ r').inode = some i) : i ≠ inode := by
  rintro rfl
  exact hr' (h.apart r' r i hi hinode)

/-- Two partial files stand at different places. -/
theorem OutputsOk.place_ne (h : OutputsOk outputs s₀ φ w) {r' : ρ} (hr' : r' ≠ r)
    (hr : φ r = .reserved path inode written) {location : List String}
    (hplace : (φ r').place = some location) : location ≠ path.location := by
  obtain ⟨path', inode', written', hphase, rfl⟩ := place_eq_some hplace
  have hfile := ((h.values r).held path inode written hr).2.1
  have hfile' := ((h.values r').held path' inode' written' hphase).2.1
  intro heq
  rw [heq, hfile] at hfile'
  cases hfile'
  exact h.inode_ne hr' (by rw [hr]; rfl) (by rw [hphase]; rfl) rfl

/-- A step that moves no file and writes none. -/
theorem OutputsOk.same (h : OutputsOk outputs s₀ φ w) (hfs : w.fs.SameFiles w'.fs)
    (hpublications : w'.publications = w.publications) : OutputsOk outputs s₀ φ w' where
  values r := by
    apply (h.values r).frame
    · intro path i written _ hfile
      rw [hfs.fileAt, hfs.bytes]
      exact ⟨hfile, rfl⟩
    · intro i _ location hfile
      rw [hfs.fileAt] at hfile
      exact hfile
    · intro i hi
      rw [hfs.handles]
      exact hi
    · intro content
      rw [hpublications]
  apart := h.apart
  once := by
    rw [hpublications]
    exact h.once
  reads location hfree := by
    rw [read_location, hfs.fileAt, hfs.bytes, ← read_location, hpublications]
    exact h.reads location hfree
  vacant := by
    rw [hpublications]
    exact h.vacant

/-- At a path that is no partial file stands no file that a value may still write to. -/
theorem OutputsOk.not_writable (h : OutputsOk outputs s₀ φ w)
    (hphase : (∃ path written, φ r = .reserved path inode written) ∨ φ r = .gone inode)
    {location : List String} (hfree : ¬ Held φ location) :
    w.fs.fileAt location ≠ some inode := by
  intro hfile
  rcases hphase with ⟨path, written, hr⟩ | hr
  · have hstands := (h.values r).stands inode (by rw [hr]; rfl) location hfile
    rw [hr] at hstands
    exact hfree ⟨r, by rw [hr, OutputPhase.place, show location = path.location from hstands]⟩
  · have hstands := (h.values r).stands inode (by rw [hr]; rfl) location hfile
    rw [hr] at hstands
    exact hstands

/-- What is written to a file cannot be read where the file does not stand. -/
theorem read_of_write {location : List String} {content : Bytes}
    (hfileAt : w'.fs.fileAt = w.fs.fileAt)
    (hbytes : w'.fs.bytes = Function.update w.fs.bytes inode content)
    (hfile : w.fs.fileAt location ≠ some inode) :
    w'.fs.store.now.read location = w.fs.store.now.read location := by
  rw [read_location, read_location, hfileAt, hbytes]
  cases hi : w.fs.fileAt location with
  | none => rfl
  | some i =>
    have hne : i ≠ inode := by
      rintro rfl
      exact hfile hi
    rw [Option.map_some, Option.map_some, Function.update_of_ne hne]

/-- What is still in the buffer goes into a file that nobody can find. -/
theorem OutputsOk.spill {content : Bytes} (h : OutputsOk outputs s₀ φ w) (hr : φ r = .gone inode)
    (hfileAt : w'.fs.fileAt = w.fs.fileAt) (hhandles : w'.fs.handles = w.fs.handles)
    (hbytes : w'.fs.bytes = Function.update w.fs.bytes inode content)
    (hpublications : w'.publications = w.publications) : OutputsOk outputs s₀ φ w' where
  values r' := by
    apply (h.values r').frame
    · intro path i written hphase hfile
      have hne : i ≠ inode := by
        rintro rfl
        have hsame := h.apart r' r i (by rw [hphase]; rfl) (by rw [hr]; rfl)
        rw [hsame, hr] at hphase
        cases hphase
      rw [hfileAt, hbytes, Function.update_of_ne hne]
      exact ⟨hfile, rfl⟩
    · intro i _ location hfile
      rw [hfileAt] at hfile
      exact hfile
    · intro i hi
      rw [hhandles]
      exact hi
    · intro content
      rw [hpublications]
  apart := h.apart
  once := by
    rw [hpublications]
    exact h.once
  reads location hfree := by
    -- the file of this value stands nowhere
    have hfile := h.not_writable (Or.inr hr) hfree
    rw [read_of_write hfileAt hbytes hfile, hpublications]
    exact h.reads location hfree
  vacant := by
    rw [hpublications]
    exact h.vacant

end Values

section Steps

variable [DecidableEq ρ] {outputs : ρ → OutputRequest} {s₀ : FsState} {φ : ρ → OutputPhase}
  {w w' : OutputWorld ρ} {r : ρ} {path : PathBuf} {inode : ℕ} {written bytes : Bytes}

/-- Inodes stay apart when a value gets one that nobody else has. -/
theorem Apart.update (h : Apart φ) {phase : OutputPhase}
    (hnew : ∀ r' i, r' ≠ r → phase.inode = some i → (φ r').inode ≠ some i) :
    Apart (Function.update φ r phase) := by
  intro r₁ r₂ i h₁ h₂
  by_cases hr₁ : r₁ = r
  · by_cases hr₂ : r₂ = r
    · rw [hr₁, hr₂]
    · subst hr₁
      rw [Function.update_self] at h₁
      rw [Function.update_of_ne hr₂] at h₂
      exact absurd h₂ (hnew r₂ i hr₂ h₁)
  · by_cases hr₂ : r₂ = r
    · subst hr₂
      rw [Function.update_self] at h₂
      rw [Function.update_of_ne hr₁] at h₁
      exact absurd h₁ (hnew r₁ i hr₁ h₂)
    · rw [Function.update_of_ne hr₁] at h₁
      rw [Function.update_of_ne hr₂] at h₂
      exact h r₁ r₂ i h₁ h₂

/-- The value keeps its file. -/
theorem Apart.update_same (h : Apart φ) {phase : OutputPhase} (hinode : phase.inode = (φ r).inode) :
    Apart (Function.update φ r phase) := by
  apply h.update
  intro r' i hr' hi hi'
  exact hr' (h r' r i hi' (hinode.symm.trans hi))

theorem held_update {phase : OutputPhase} {location : List String} :
    Held (Function.update φ r phase) location ↔
      phase.place = some location ∨ ∃ r', r' ≠ r ∧ (φ r').place = some location :=
  Function.exists_update_iff φ fun _ phase => phase.place = some location

theorem values_update {phase : OutputPhase} (hown : ValueOk (outputs r) r w phase)
    (hothers : ∀ r', r' ≠ r → ValueOk (outputs r') r' w (φ r')) (r' : ρ) :
    ValueOk (outputs r') r' w (Function.update φ r phase r') :=
  (Function.forall_update_iff φ fun r' phase => ValueOk (outputs r') r' w phase).mpr
    ⟨hown, hothers⟩ r'

/-- A partial file grows. -/
theorem OutputsOk.grow (h : OutputsOk outputs s₀ φ w) (hr : φ r = .reserved path inode written)
    (hfileAt : w'.fs.fileAt = w.fs.fileAt) (hhandles : w'.fs.handles = w.fs.handles)
    (hbytes : w'.fs.bytes = Function.update w.fs.bytes inode (w.fs.bytes inode ++ bytes))
    (hpublications : w'.publications = w.publications) :
    OutputsOk outputs s₀ (Function.update φ r (.reserved path inode (written ++ bytes))) w' := by
  have hinode : (φ r).inode = some inode := by rw [hr]; rfl
  have hheld (location : List String) :
      Held (Function.update φ r (.reserved path inode (written ++ bytes))) location ↔
        Held φ location := by
    have hplace : (OutputPhase.reserved path inode (written ++ bytes)).place = (φ r).place := by
      rw [hr]
      rfl
    rw [held_update, hplace, ← held_update, Function.update_eq_self]
  refine ⟨values_update ?_ ?_, h.apart.update_same (by rw [hr]; rfl), ?_, ?_, ?_⟩
  · obtain ⟨hbeside, hfile, hcontent⟩ := (h.values r).held path inode written hr
    constructor
    · intro path' inode' written' heq
      cases heq
      rw [hfileAt, hbytes, Function.update_self, hcontent]
      exact ⟨hbeside, hfile, rfl⟩
    · intro i hi location hlocation
      cases hi
      rw [hfileAt] at hlocation
      have hstands := (h.values r).stands inode hinode location hlocation
      rw [hr] at hstands
      exact hstands
    · intro i hi
      cases hi
      rw [hhandles]
      exact (h.values r).opened inode hinode
    · intro content
      rw [hpublications, (h.values r).logged, hr]
      rfl
  · intro r' hr'
    apply (h.values r').frame
    · intro path' i written' hphase hfile
      have hne : i ≠ inode := h.inode_ne hr' hinode (by rw [hphase]; rfl)
      rw [hfileAt, hbytes, Function.update_of_ne hne]
      exact ⟨hfile, rfl⟩
    · intro i _ location hfile
      rw [hfileAt] at hfile
      exact hfile
    · intro i hi
      rw [hhandles]
      exact hi
    · intro content
      rw [hpublications]
  · rw [hpublications]
    exact h.once
  · intro location hfree
    rw [hheld] at hfree
    have hfile := h.not_writable (Or.inl ⟨path, written, hr⟩) hfree
    rw [read_of_write hfileAt hbytes hfile, hpublications]
    exact h.reads location hfree
  · intro location hlocation
    rw [hpublications]
    exact h.vacant location ((hheld location).mp hlocation)

/-- A partial file is made where there was nothing. -/
theorem OutputsOk.reserve (h : OutputsOk outputs s₀ φ w) (hr : φ r = .preparing)
    (hbeside : (outputs r).IsPartial path) (hnone : w.fs.fileAt path.location = none)
    (hunopened : inode ∉ w.fs.handles) (hnowhere : ∀ p, w.fs.fileAt p ≠ some inode)
    (hhandles : w'.fs.handles = inode :: w.fs.handles)
    (hfileAt : w'.fs.fileAt = Function.update w.fs.fileAt path.location (some inode))
    (hbytes : w'.fs.bytes = Function.update w.fs.bytes inode [])
    (hpublications : w'.publications = w.publications) :
    OutputsOk outputs s₀ (Function.update φ r (.reserved path inode [])) w' := by
  have hnew (r' : ρ) {i : ℕ} (hi : (φ r').inode = some i) : i ≠ inode := by
    rintro rfl
    exact hunopened ((h.values r').opened i hi)
  -- nobody has a partial file at the path yet
  have hfree : ¬ Held φ path.location := by
    rintro ⟨r', hr'⟩
    obtain ⟨path', inode', written', hphase, hlocation⟩ := place_eq_some hr'
    have hfile := ((h.values r').held path' inode' written' hphase).2.1
    rw [hlocation, hnone] at hfile
    cases hfile
  have hheld (location : List String) :
      Held (Function.update φ r (.reserved path inode [])) location ↔
        path.location = location ∨ Held φ location := by
    rw [held_update]
    constructor
    · rintro (hown | ⟨r', -, hr'⟩)
      · exact Or.inl (Option.some.inj hown)
      · exact Or.inr ⟨r', hr'⟩
    · rintro (hown | ⟨r', hr'⟩)
      · exact Or.inl (congrArg some hown)
      · refine Or.inr ⟨r', ?_, hr'⟩
        rintro rfl
        rw [hr] at hr'
        cases hr'
  refine ⟨values_update ?_ ?_, h.apart.update ?_, ?_, ?_, ?_⟩
  · constructor
    · intro path' inode' written' heq
      cases heq
      rw [hfileAt, hbytes, Function.update_self, Function.update_self]
      exact ⟨hbeside, rfl, rfl⟩
    · intro i hi location hlocation
      cases hi
      by_contra hne
      rw [hfileAt, Function.update_of_ne hne] at hlocation
      exact hnowhere location hlocation
    · intro i hi
      cases hi
      rw [hhandles]
      exact List.mem_cons_self
    · intro content
      rw [hpublications, (h.values r).logged, hr]
      rfl
  · intro r' hr'
    apply (h.values r').frame
    · intro path' i written' hphase hfile
      have hne : path'.location ≠ path.location := by
        intro heq
        rw [heq, hnone] at hfile
        cases hfile
      have hne' : i ≠ inode := hnew r' (by rw [hphase]; rfl)
      rw [hfileAt, hbytes, Function.update_of_ne hne, Function.update_of_ne hne']
      exact ⟨hfile, rfl⟩
    · intro i hi location hfile
      have hne : location ≠ path.location := by
        rintro rfl
        rw [hfileAt, Function.update_self] at hfile
        exact hnew r' hi (Option.some.inj hfile).symm
      rw [hfileAt, Function.update_of_ne hne] at hfile
      exact hfile
    · intro i hi
      rw [hhandles]
      exact List.mem_cons_of_mem inode hi
    · intro content
      rw [hpublications]
  · intro r' i _ hi hi'
    cases hi
    exact hnew r' hi' rfl
  · rw [hpublications]
    exact h.once
  · intro location hlocation
    rw [hheld, not_or] at hlocation
    have hsame : w'.fs.store.now.read location = w.fs.store.now.read location := by
      rw [read_location, read_location, hfileAt, hbytes,
        Function.update_of_ne (Ne.symm hlocation.1)]
      cases hi : w.fs.fileAt location with
      | none => rfl
      | some i =>
        have hne : i ≠ inode := by
          rintro rfl
          exact hnowhere location hi
        rw [Option.map_some, Option.map_some, Function.update_of_ne hne]
    rw [hsame, hpublications]
    exact h.reads location hlocation.2
  · intro location hlocation
    rw [hpublications]
    rcases (hheld location).mp hlocation with rfl | hbefore
    · rw [← h.reads _ hfree, read_location, hnone, Option.map_none]
    · exact h.vacant location hbefore

/-- A partial file is removed. -/
theorem OutputsOk.remove (h : OutputsOk outputs s₀ φ w) (hr : φ r = .reserved path inode written)
    (hfileAt : w'.fs.fileAt = Function.update w.fs.fileAt path.location none)
    (hbytes : w'.fs.bytes = w.fs.bytes) (hhandles : w'.fs.handles = w.fs.handles)
    (hpublications : w'.publications = w.publications) :
    OutputsOk outputs s₀ (Function.update φ r (.gone inode)) w' := by
  have hinode : (φ r).inode = some inode := by rw [hr]; rfl
  have hkept {location : List String} {i : ℕ} (hfile : w'.fs.fileAt location = some i) :
      location ≠ path.location ∧ w.fs.fileAt location = some i := by
    have hne : location ≠ path.location := by
      rintro rfl
      rw [hfileAt, Function.update_self] at hfile
      cases hfile
    rw [hfileAt, Function.update_of_ne hne] at hfile
    exact ⟨hne, hfile⟩
  refine ⟨values_update ?_ ?_, h.apart.update_same (by rw [hr]; rfl), ?_, ?_, ?_⟩
  · constructor
    · intro path' inode' written' heq
      cases heq
    · intro i hi location hlocation
      cases hi
      obtain ⟨hne, hbefore⟩ := hkept hlocation
      have hstands := (h.values r).stands inode hinode location hbefore
      rw [hr] at hstands
      exact hne hstands
    · intro i hi
      cases hi
      rw [hhandles]
      exact (h.values r).opened inode hinode
    · intro content
      rw [hpublications, (h.values r).logged, hr]
      rfl
  · intro r' hr'
    apply (h.values r').frame
    · intro path' i written' hphase hfile
      have hne : path'.location ≠ path.location := h.place_ne hr' hr (by rw [hphase]; rfl)
      rw [hfileAt, hbytes, Function.update_of_ne hne]
      exact ⟨hfile, rfl⟩
    · exact fun i _ location hfile => (hkept hfile).2
    · intro i hi
      rw [hhandles]
      exact hi
    · intro content
      rw [hpublications]
  · rw [hpublications]
    exact h.once
  · intro location hfree
    rw [hpublications, read_location, hfileAt, hbytes]
    by_cases hlocation : location = path.location
    · subst hlocation
      rw [Function.update_self, Option.map_none]
      exact (h.vacant _ ⟨r, by rw [hr]; rfl⟩).symm
    · rw [Function.update_of_ne hlocation, ← read_location]
      apply h.reads location
      rintro ⟨r', hplace⟩
      by_cases hr' : r' = r
      · rw [hr', hr] at hplace
        exact hlocation (Option.some.inj hplace).symm
      · exact hfree (held_update.mpr (Or.inr ⟨r', hr', hplace⟩))
  · intro location hlocation
    rw [hpublications]
    rcases held_update.mp hlocation with hown | ⟨r', -, hplace⟩
    · cases hown
    · exact h.vacant location ⟨r', hplace⟩

/-- A partial file takes the place of the final path. -/
theorem OutputsOk.publish (h : OutputsOk outputs s₀ φ w) (hapart : NamesApart outputs)
    (hr : φ r = .reserved path inode written)
    (hfileAt : w'.fs.fileAt = Function.update (Function.update w.fs.fileAt path.location none)
      (outputs r).finalPath.location (some inode))
    (hbytes : w'.fs.bytes = w.fs.bytes) (hhandles : w'.fs.handles = w.fs.handles)
    (hpublications : w'.publications =
      w.publications ++ [(r, w'.fs.read (outputs r).finalPath)]) :
    OutputsOk outputs s₀ (Function.update φ r (.published inode written)) w' := by
  have hinode : (φ r).inode = some inode := by rw [hr]; rfl
  obtain ⟨hbeside, hfile, hcontent⟩ := (h.values r).held path inode written hr
  have hread : w'.fs.read (outputs r).finalPath = some written := by
    rw [FsState.read, read_location, hfileAt, hbytes, Function.update_self, Option.map_some,
      hcontent]
  rw [hread] at hpublications
  have hkept {location : List String} {i : ℕ} (hi : i ≠ inode)
      (hstands : w'.fs.fileAt location = some i) : w.fs.fileAt location = some i := by
    have hfinal : location ≠ (outputs r).finalPath.location := by
      rintro rfl
      rw [hfileAt, Function.update_self] at hstands
      exact hi (Option.some.inj hstands).symm
    have hpath : location ≠ path.location := by
      rintro rfl
      rw [hfileAt, Function.update_of_ne hfinal, Function.update_self] at hstands
      cases hstands
    rwa [hfileAt, Function.update_of_ne hfinal, Function.update_of_ne hpath] at hstands
  -- the other partial files stand neither where this one stood nor at its final path
  have hothers {r' : ρ} (hr' : r' ≠ r) {location : List String}
      (hplace : (φ r').place = some location) :
      location ≠ path.location ∧ location ≠ (outputs r).finalPath.location := by
    refine ⟨h.place_ne hr' hr hplace, ?_⟩
    obtain ⟨path', inode', written', hphase, rfl⟩ := place_eq_some hplace
    exact hapart r r' path' (Ne.symm hr') ((h.values r').held path' inode' written' hphase).1
  have hunlogged : ∀ content, (r, content) ∉ w.publications := by
    intro content hmem
    have hlogged := ((h.values r).logged content).mp hmem
    rw [hr] at hlogged
    cases hlogged.1
  refine ⟨values_update ?_ ?_, h.apart.update_same (by rw [hr]; rfl), ?_, ?_, ?_⟩
  · constructor
    · intro path' inode' written' heq
      cases heq
    · intro i hi location hlocation
      cases hi
      by_contra hne
      have hne : location ≠ (outputs r).finalPath.location := hne
      rw [hfileAt, Function.update_of_ne hne] at hlocation
      by_cases hpath : location = path.location
      · rw [hpath, Function.update_self] at hlocation
        cases hlocation
      · rw [Function.update_of_ne hpath] at hlocation
        have hstands := (h.values r).stands inode hinode location hlocation
        rw [hr] at hstands
        exact hpath hstands
    · intro i hi
      cases hi
      rw [hhandles]
      exact (h.values r).opened inode hinode
    · intro content
      rw [hpublications, List.mem_append, List.mem_singleton]
      constructor
      · rintro (hmem | heq)
        · exact absurd hmem (hunlogged content)
        · exact ⟨rfl, (Prod.mk.inj heq).2⟩
      · rintro ⟨-, rfl⟩
        exact Or.inr rfl
  · intro r' hr'
    apply (h.values r').frame
    · intro path' i written' hphase hstands
      have hplace : (φ r').place = some path'.location := by rw [hphase]; rfl
      obtain ⟨hpath, hfinal⟩ := hothers hr' hplace
      rw [hfileAt, hbytes, Function.update_of_ne hfinal, Function.update_of_ne hpath]
      exact ⟨hstands, rfl⟩
    · exact fun i hi location hstands => hkept (h.inode_ne hr' hinode hi) hstands
    · intro i hi
      rw [hhandles]
      exact hi
    · intro content
      rw [hpublications, List.mem_append, List.mem_singleton]
      constructor
      · rintro (hmem | heq)
        · exact hmem
        · exact absurd (Prod.mk.inj heq).1 hr'
      · exact Or.inl
  · rw [hpublications, List.map_append, List.nodup_append]
    refine ⟨h.once, List.nodup_singleton r, ?_⟩
    rintro a ha b hb rfl
    obtain ⟨⟨r', content⟩, hmem, rfl⟩ := List.mem_map.mp ha
    rw [show r' = r from List.mem_singleton.mp hb] at hmem
    exact hunlogged content hmem
  · intro location hfree
    rw [hpublications]
    by_cases hfinal : location = (outputs r).finalPath.location
    · subst hfinal
      rw [expected_append_self]
      exact hread
    · rw [expected_append_of_ne hfinal, read_location, hfileAt, hbytes,
        Function.update_of_ne hfinal]
      by_cases hlocation : location = path.location
      · subst hlocation
        rw [Function.update_self, Option.map_none]
        exact (h.vacant _ ⟨r, by rw [hr]; rfl⟩).symm
      · rw [Function.update_of_ne hlocation, ← read_location]
        apply h.reads location
        rintro ⟨r', hplace⟩
        by_cases hr' : r' = r
        · rw [hr', hr] at hplace
          exact hlocation (Option.some.inj hplace).symm
        · exact hfree (held_update.mpr (Or.inr ⟨r', hr', hplace⟩))
  · intro location hlocation
    rcases held_update.mp hlocation with hown | ⟨r', hr', hplace⟩
    · cases hown
    · rw [hpublications, expected_append_of_ne (hothers hr' hplace).2]
      exact h.vacant location ⟨r', hplace⟩

/-- A step that keeps the value's phase. -/
theorem OutputsOk.keep (h : OutputsOk outputs s₀ φ w) {phase : OutputPhase} (hr : φ r = phase)
    (hfs : w.fs.SameFiles w'.fs) (hpublications : w'.publications = w.publications) :
    OutputsOk outputs s₀ (Function.update φ r phase) w' := by
  rw [← hr, Function.update_eq_self]
  exact h.same hfs hpublications

/-- A step of one value keeps what is known of all of them. -/
theorem OutputsOk.step (hapart : NamesApart outputs) (h : OutputsOk outputs s₀ φ w) {op : FsOp}
    {x : FsAns op} {φ' : OutputPhase} (hnext : (outputs r).next (φ r) op x = some φ')
    (hact : (outputParties ρ).act r op w x w') :
    OutputsOk outputs s₀ (Function.update φ r φ') w' := by
  obtain ⟨hfs, hpublications⟩ := hact
  cases hr : φ r with
  | preparing =>
    rw [hr] at hnext
    cases op with
    | metadata path =>
      cases hnext
      obtain ⟨-, hsame⟩ := hfs
      exact h.keep hr (by rw [hsame]; exact .refl _) hpublications
    | isDir path =>
      cases hnext
      obtain ⟨-, hsame⟩ := hfs
      exact h.keep hr (by rw [hsame]; exact .refl _) hpublications
    | createDir path =>
      cases hnext
      exact h.keep hr (sameFiles_createDir hfs) hpublications
    | openDir path =>
      cases hnext
      exact h.keep hr (sameFiles_openDir hfs) hpublications
    | syncDir handle =>
      cases hnext
      exact h.keep hr (sameFiles_syncDir hfs) hpublications
    | createNew path =>
      cases x with
      | error e =>
        cases hnext
        have hsame : w'.fs = w.fs := hfs
        exact h.keep hr (by rw [hsame]; exact .refl _) hpublications
      | ok inode =>
        simp only [OutputRequest.next] at hnext
        split at hnext
        · next hbeside =>
          cases hnext
          obtain ⟨hnone, hunopened, hnowhere, hhandles, hfileAt, hbytes⟩ := files_createNew hfs
          exact h.reserve hr hbeside hnone hunopened hnowhere hhandles hfileAt hbytes
            hpublications
        · cases hnext
    | _ => cases hnext
  | reserved path inode written =>
    rw [hr] at hnext
    cases op with
    | write i bytes =>
      simp only [OutputRequest.next] at hnext
      split at hnext
      · next hi =>
        subst hi
        cases x with
        | error e =>
          cases hnext
          have hsame : w'.fs = w.fs := hfs
          exact h.keep hr (by rw [hsame]; exact .refl _) hpublications
        | ok n =>
          cases hnext
          obtain ⟨hfileAt, hhandles, hbytes⟩ := files_write hfs
          exact h.grow hr hfileAt hhandles hbytes hpublications
      · cases hnext
    | syncFile i =>
      simp only [OutputRequest.next] at hnext
      split at hnext
      · cases hnext
        exact h.keep hr (sameFiles_syncFile hfs) hpublications
      · cases hnext
    | rename source target =>
      simp only [OutputRequest.next] at hnext
      split at hnext
      · next hpaths =>
        obtain ⟨rfl, rfl⟩ := hpaths
        cases x with
        | error e =>
          cases hnext
          have hsame : w'.fs = w.fs := hfs
          exact h.keep hr (by rw [hsame]; exact .refl _) hpublications
        | ok u =>
          cases hnext
          obtain ⟨hbeside, hfile, -⟩ := (h.values r).held source inode written hr
          obtain ⟨i, hi, hbytes, hhandles, hfileAt⟩ := files_rename hbeside.ne_final hfs
          cases hfile.symm.trans hi
          exact h.publish hapart hr hfileAt hbytes hhandles hpublications
      · cases hnext
    | removeFile source =>
      simp only [OutputRequest.next] at hnext
      split at hnext
      · next hsource =>
        subst hsource
        obtain ⟨hbeside, hfile, -⟩ := (h.values r).held source inode written hr
        have hsame {e : FsError} (hfs : FsState.act (fun _ => False) (.removeFile source) w.fs
            (.error e) w'.fs) : w'.fs = w.fs := hfs.2
        rcases x with e | u
        · cases e with
          | notFound => exact absurd hfs (not_notFound hbeside.isEmpty hfile)
          | _ =>
            cases hnext
            exact h.keep hr (by rw [hsame hfs]; exact .refl _) hpublications
        · cases hnext
          obtain ⟨hfileAt, hbytes, hhandles⟩ := files_removeFile hfile hfs
          exact h.remove hr hfileAt hbytes hhandles hpublications
      · cases hnext
    | _ => cases hnext
  | published inode written =>
    rw [hr] at hnext
    cases op with
    | openDir path =>
      cases hnext
      exact h.keep hr (sameFiles_openDir hfs) hpublications
    | syncDir handle =>
      cases hnext
      exact h.keep hr (sameFiles_syncDir hfs) hpublications
    | _ => cases hnext
  | gone inode =>
    rw [hr] at hnext
    cases op with
    | write i bytes =>
      simp only [OutputRequest.next] at hnext
      split at hnext
      · next hi =>
        subst hi
        cases hnext
        rw [← hr, Function.update_eq_self]
        cases x with
        | error e =>
          have hsame : w'.fs = w.fs := hfs
          exact h.same (by rw [hsame]; exact .refl _) hpublications
        | ok n =>
          obtain ⟨hfileAt, hhandles, hbytes⟩ := files_write hfs
          exact h.spill hr hfileAt hhandles hbytes hpublications
      · cases hnext
    | _ => cases hnext

/-- A value that is over has no partial file but one that could not be removed. -/
theorem place_of_sessionLeft {x : Except FsError OutputEnd} {phase : OutputPhase}
    {location : List String} (h : SessionLeft x phase) (hplace : phase.place = some location) :
    ∃ e, x = .ok e ∧ e.kept = true ∧ e.partialPath.location = location := by
  cases x with
  | error error =>
    rw [show phase = .preparing from h] at hplace
    cases hplace
  | ok e =>
    have hleft : e.Left phase := h
    unfold OutputEnd.Left at hleft
    split at hleft
    · rw [hleft.1] at hplace
      cases hplace
    · split at hleft
      · next hkept =>
        obtain ⟨-, written, -, rfl⟩ := hleft
        exact ⟨e, rfl, hkept, Option.some.inj hplace⟩
      · rw [hleft.2] at hplace
        cases hplace

/-- The value is over and has left no partial file at the location. -/
def Released (q : Prog FsOp FsAns (Except FsError OutputEnd)) (location : List String) : Prop :=
  ∃ x, q = .ret x ∧ ∀ e, x = .ok e → e.kept = true → e.partialPath.location ≠ location

/-- Every interleaving of the values of `outputs`, from their creation on. -/
abbrev OutputRun (outputs : ρ → OutputRequest) (s₀ : FsState)
    (c : Pool ρ FsOp FsAns (fun _ => Except FsError OutputEnd) × OutputWorld ρ) : Prop :=
  PoolReach (outputParties ρ) (fun r => (outputs r).session.run, ⟨s₀, []⟩) c

variable {c : Pool ρ FsOp FsAns (fun _ => Except FsError OutputEnd)}

theorem outputsOk_of_run (hapart : NamesApart outputs) (hr : OutputRun outputs s₀ (c, w)) :
    ∃ φ, OutputsOk outputs s₀ φ w ∧ ∀ r, (∀ e, c r = .ret e → SessionLeft e (φ r)) := by
  obtain ⟨φ, hok, hphase⟩ := hr.phases (N := fun r => (outputs r).protocol)
    (φ := fun _ => .preparing) (fun r => session_follows (outputs r))
    (J := OutputsOk outputs s₀) (outputsOk_start outputs s₀)
    (fun r φ op x φ' w w' hok hnext hact => hok.step hapart hnext hact)
    (fun φ w w' hok henv => henv.elim)
  exact ⟨φ, hok, fun r => (hphase r).2⟩

/-- Whatever fails and however the values take turns, a path where no value may have its partial file
any more holds what the last rename to it has left, or else what it held at the beginning. Each
value is renamed at most once. A value that is over has been renamed exactly when its flag says so,
then with all the bytes it has accepted. Its file stands nowhere else, unless the removal has failed:
then it is left under the partial path, with the first bytes of what was accepted. `finish` succeeds
only after the rename, and a value that could not be created has none. -/
theorem outputs_publish_whole (hapart : NamesApart outputs) (hr : OutputRun outputs s₀ (c, w)) :
    (∀ location, (∀ r path, (outputs r).IsPartial path → path.location = location →
        Released (c r) location) →
      w.fs.store.now.read location = expected outputs s₀ w.publications location) ∧
    (w.publications.map Prod.fst).Nodup ∧
    (∀ r e, c r = .ret (.ok e) →
      (∀ content, (r, content) ∈ w.publications ↔
        e.published = true ∧ content = some e.accepted) ∧
      (e.result = some (.ok ()) → e.published = true) ∧
      (e.published = true → e.result ≠ none) ∧
      (e.kept = true → e.published = false ∧ (outputs r).IsPartial e.partialPath ∧
        w.fs.fileAt e.partialPath.location = some e.inode ∧ w.fs.bytes e.inode <+: e.accepted) ∧
      ∀ location, w.fs.fileAt location = some e.inode →
        e.published = true ∧ location = (outputs r).finalPath.location ∨
          e.kept = true ∧ location = e.partialPath.location) ∧
    ∀ r error, c r = .ret (.error error) → ∀ content, (r, content) ∉ w.publications := by
  obtain ⟨φ, hok, hleft⟩ := outputsOk_of_run hapart hr
  refine ⟨?_, hok.once, ?_, ?_⟩
  · intro location hreleased
    apply hok.reads
    rintro ⟨r, hplace⟩
    obtain ⟨path, inode, written, hphase, hlocation⟩ := place_eq_some hplace
    -- a value that still has its partial file is not over, or could not remove it
    have hbeside := ((hok.values r).held path inode written hphase).1
    obtain ⟨x, hret, hnone⟩ := hreleased r path hbeside hlocation
    obtain ⟨e, hx, hkept, hpath⟩ := place_of_sessionLeft (hleft r x hret) hplace
    exact hnone e hx hkept hpath
  · intro r e hret
    have hsession : e.Left (φ r) := hleft r _ hret
    have hvalue := hok.values r
    unfold OutputEnd.Left at hsession
    split at hsession
    · next hpublished =>
      obtain ⟨hphase, hresult, hkept⟩ := hsession
      rw [hphase] at hvalue
      refine ⟨fun content => ?_, fun _ => hpublished, fun _ => hresult, fun h => ?_,
        fun location hfile => ?_⟩
      · rw [hvalue.logged, hpublished]
        simp [OutputPhase.content]
      · cases hkept.symm.trans h
      · exact Or.inl ⟨hpublished, hvalue.stands e.inode rfl location hfile⟩
    · next hunpublished =>
      obtain ⟨hresult, hphase⟩ := hsession
      have hlogged : ∀ content, (r, content) ∈ w.publications ↔
          e.published = true ∧ content = some e.accepted := by
        intro content
        have hnone : (φ r).content = none := by
          split at hphase
          · obtain ⟨written, -, hphase⟩ := hphase
            rw [hphase]
            rfl
          · rw [hphase]
            rfl
        rw [hvalue.logged, hnone]
        simp [hunpublished]
      refine ⟨hlogged, fun hok => absurd hok hresult,
        fun hpublished => absurd hpublished hunpublished, fun hkept => ?_, fun location hfile => ?_⟩
      · rw [if_pos hkept] at hphase
        obtain ⟨written, hprefix, hphase⟩ := hphase
        obtain ⟨hbeside, hfile, hcontent⟩ := hvalue.held _ _ _ hphase
        exact ⟨by simpa using hunpublished, hbeside, hfile, hcontent ▸ hprefix⟩
      · split at hphase
        · next hkept =>
          obtain ⟨written, -, hphase⟩ := hphase
          rw [hphase] at hvalue
          exact Or.inr ⟨hkept, hvalue.stands e.inode rfl location hfile⟩
        · rw [hphase] at hvalue
          exact (hvalue.stands e.inode rfl location hfile).elim
  · intro r error hret content hmem
    have hsession : φ r = .preparing := hleft r _ hret
    have hlogged := ((hok.values r).logged content).mp hmem
    rw [hsession] at hlogged
    cases hlogged.1

end Steps

section Sample

/-- A flush of one write. -/
theorem reach_flushBuffer {σ : Type} {M : Machine FsOp FsAns σ} {s s' : σ} {inode : ℕ}
    {buffer : Bytes} (hbuffer : buffer ≠ [])
    (hwrite : M.act (.write inode buffer) s (Except.ok buffer.length) s') :
    Reach M (flushBuffer inode buffer, s) (.ret (.ok (), []), s') := by
  have hrest (n : ℕ) : flushBuffer inode (buffer.drop (buffer.length + n)) = .ret (.ok (), []) := by
    rw [List.drop_of_length_le (by omega), flushBuffer, if_pos rfl]
  obtain ⟨n, hn⟩ := Nat.exists_eq_succ_of_ne_zero (List.length_pos_of_ne_nil hbuffer).ne'
  rw [flushBuffer, if_neg hbuffer]
  apply Relation.ReflTransGen.head .loop
  apply Relation.ReflTransGen.head (.call hwrite)
  rw [hn]
  have hlast := hrest 0
  rw [Nat.add_zero, hn] at hlast
  change Reach M (flushBuffer inode (buffer.drop (n + 1)), s') _
  rw [hlast]

/-- Two values for one file: one writes and finishes, the other is dropped. -/
def sampleOutputs (finishes : Bool) : OutputRequest where
  finalPath := ⟨false, ["results.jsonl"]⟩
  processId := 7
  firstId := if finishes then 1024 else 0
  use := if finishes then .write [104, 105] fun _ => .finish else .drop

def sampleFs : FsState := ⟨⟨fun _ => .empty, fun _ => ⟨[], false⟩⟩, []⟩

def samplePartial : String := ".results.jsonl.partial-7-1024"

def sampleOutput : AtomicOutput :=
  ⟨⟨false, ["results.jsonl"]⟩, ⟨false, [".", samplePartial]⟩, ⟨0, []⟩, false⟩

def sampleEnd : OutputEnd :=
  ⟨0, ⟨false, [".", samplePartial]⟩, some (.ok ()), true, false, [104, 105]⟩

def sampleReserved : FsState := sampleFs.linkNew [samplePartial] 0

def sampleWritten : FsState := sampleReserved.append 0 [104, 105]

def sampleSynced : FsState := { sampleWritten with store := sampleWritten.store.syncFile 0 }

def sampleMoved : FsState := sampleSynced.move [] samplePartial "results.jsonl" 0

def samplePublished : FsState := { sampleMoved with store := sampleMoved.store.syncDirectory [] }

theorem namesApart_sample : NamesApart sampleOutputs := by
  intro r r' path _ hbeside
  exact hbeside.ne_final

theorem vacant_sample : sampleFs.Vacant [samplePartial] := ⟨rfl, rfl⟩

theorem fresh_sample : sampleFs.Fresh 0 := by
  refine ⟨?_, by simp [sampleFs]⟩
  intro p l hl name
  have hsame : l = (sampleFs.store.directory p).current := (Directory.image_of_settled rfl).mp hl
  rw [hsame]
  intro h
  cases h

/-- The sample's output is created. -/
theorem reach_create_sample :
    Reach ((outputParties Bool).machine true)
      ((AtomicOutput.create ⟨false, ["results.jsonl"]⟩ 7 1024).run, ⟨sampleFs, []⟩)
      (.ret (.ok sampleOutput), ⟨sampleReserved, []⟩) := by
  have hmetadata : (outputParties Bool).act true (.metadata currentDir) ⟨sampleFs, []⟩
      (Except.ok ()) ⟨sampleFs, []⟩ := ⟨⟨fun _ => rfl, rfl⟩, rfl⟩
  have hcreateDir : (outputParties Bool).act true (.createDir currentDir) ⟨sampleFs, []⟩
      (Except.error FsError.alreadyExists) ⟨sampleFs, []⟩ := ⟨rfl, rfl⟩
  have hisDir : (outputParties Bool).act true (.isDir currentDir) ⟨sampleFs, []⟩ true
      ⟨sampleFs, []⟩ := ⟨⟨fun _ => rfl, rfl⟩, rfl⟩
  have hcreateNew : (outputParties Bool).act true (.createNew ⟨false, [".", samplePartial]⟩)
      ⟨sampleFs, []⟩ (Except.ok 0) ⟨sampleReserved, []⟩ :=
    ⟨⟨vacant_sample, fresh_sample, rfl⟩, rfl⟩
  exact .head (.call hmetadata) (.head (.call hcreateDir) (.head (.call hisDir)
    (.head (.call hcreateNew) .refl)))

/-- The sample's output is used up to its end. -/
theorem reach_use_sample :
    Reach ((outputParties Bool).machine true)
      ((sampleOutputs true).use.run sampleOutput [], ⟨sampleReserved, []⟩)
      (.ret sampleEnd,
        ⟨samplePublished, [(true, some [104, 105])]⟩) := by
  have hwrite : (outputParties Bool).act true (.write 0 [104, 105]) ⟨sampleReserved, []⟩
      (Except.ok 2) ⟨sampleWritten, []⟩ := ⟨⟨le_rfl, rfl⟩, rfl⟩
  have hsyncFile : (outputParties Bool).act true (.syncFile 0) ⟨sampleWritten, []⟩
      (Except.ok ()) ⟨sampleSynced, []⟩ := ⟨rfl, rfl⟩
  have hrename : (outputParties Bool).act true
      (.rename ⟨false, [".", samplePartial]⟩ ⟨false, ["results.jsonl"]⟩) ⟨sampleSynced, []⟩
      (Except.ok ()) ⟨sampleMoved, [(true, some [104, 105])]⟩ := by
    refine ⟨⟨[], samplePartial, "results.jsonl", 0, rfl, rfl, rfl, rfl, ?_, rfl⟩, rfl⟩
    decide
  have hopenDir : (outputParties Bool).act true (.openDir currentDir)
      ⟨sampleMoved, [(true, some [104, 105])]⟩ (Except.ok [])
      ⟨sampleMoved, [(true, some [104, 105])]⟩ := ⟨⟨rfl, rfl, rfl⟩, rfl⟩
  have hsyncDir : (outputParties Bool).act true (.syncDir [])
      ⟨sampleMoved, [(true, some [104, 105])]⟩ (Except.ok ())
      ⟨samplePublished, [(true, some [104, 105])]⟩ := ⟨rfl, rfl⟩
  have hflush := reach_flushBuffer (M := (outputParties Bool).machine true) (by decide) hwrite
  have huse : (sampleOutputs true).use.run sampleOutput [] =
      (flushBuffer 0 [104, 105]).bind fun r =>
        (AtomicOutput.publishFlushed (r.1, { sampleOutput with writer := ⟨0, r.2⟩ })).bind
          fun r => r.2.ends (some r.1) [104, 105] := by
    change ((((flushBuffer 0 [104, 105]).bind _).bind _).bind _).bind _ = _
    rw [Prog.bind_assoc, Prog.bind_assoc, Prog.bind_assoc]
    rfl
  have hdrop : flushBuffer 0 [] = .ret (.ok (), []) := by
    rw [flushBuffer, if_pos rfl]
  rw [huse]
  apply (hflush.bind _).trans
  apply Relation.ReflTransGen.head (.call hsyncFile)
  apply Relation.ReflTransGen.head (.call hrename)
  apply Relation.ReflTransGen.head (.call hopenDir)
  apply Relation.ReflTransGen.head (.call hsyncDir)
  change Reach _ (((flushBuffer 0 []).bind fun _ => .ret false).bind _, _) _
  rw [hdrop]
  exact .refl

/-- The second value is still to be created while the first one is over. -/
theorem outputs_publish_whole_sample :
    ∃ c w, OutputRun sampleOutputs sampleFs (c, w) ∧
      c true = .ret (.ok sampleEnd) ∧
      (true, some [104, 105]) ∈ w.publications ∧
      w.fs.store.now.read ["results.jsonl"] = some [104, 105] := by
  have hsession : Reach ((outputParties Bool).machine true)
      ((sampleOutputs true).session.run, ⟨sampleFs, []⟩)
      (.ret (.ok sampleEnd),
        ⟨samplePublished, [(true, some [104, 105])]⟩) :=
    (reach_create_sample.bind _).trans (reach_use_sample.bind _)
  have hrun : OutputRun sampleOutputs sampleFs (Function.update
      (fun finishes => (sampleOutputs finishes).session.run) true
      (.ret (.ok sampleEnd)),
      ⟨samplePublished, [(true, some [104, 105])]⟩) := PoolReach.party hsession
  obtain ⟨hreads, -, hvalues, -⟩ := outputs_publish_whole namesApart_sample hrun
  have hvalue := hvalues true sampleEnd (Function.update_self ..)
  refine ⟨_, _, hrun, Function.update_self .., (hvalue.1 _).mpr ⟨rfl, rfl⟩, ?_⟩
  rw [hreads]
  · exact expected_append_self sampleOutputs sampleFs [] true (some [104, 105])
  · intro r path hbeside hlocation
    exact absurd hlocation hbeside.ne_final

end Sample

end Snoozer.WakeLatency
