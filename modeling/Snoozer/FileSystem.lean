import Snoozer.Benchctl
import Snoozer.DurableStore

/-! The system calls that publish files, over a store whose changes may be lost in a crash. A
path starts from the root or from the current directory, which both stay; every call may fail.
Temporary files are named by a library, which is a parameter. -/
namespace Snoozer
open Interactive Interactive.Fallible DurableStore
open Benchctl (PathBuf Bytes IoError)

inductive FsError where
  | notFound
  | alreadyExists
  | interrupted
  | writeZero
  | other (message : String)
  deriving DecidableEq, Repr

def FsError.source : FsError → IoError
  | notFound => ⟨"No such file or directory (os error 2)"⟩
  | alreadyExists => ⟨"File exists (os error 17)"⟩
  | interrupted => ⟨"Interrupted system call (os error 4)"⟩
  | writeZero => ⟨"failed to write whole buffer"⟩
  | other message => ⟨message⟩

/-- Files and open directories are known by their handles. -/
inductive FsOp where
  | createDir (path : PathBuf)
  | isDir (path : PathBuf)
  | metadata (path : PathBuf)
  | createNew (path : PathBuf)
  | createTemp (parent : PathBuf)
  | closeTemp (path : PathBuf)
  | write (inode : ℕ) (bytes : Bytes)
  | writeAll (inode : ℕ) (bytes : Bytes)
  | syncFile (inode : ℕ)
  | rename (source target : PathBuf)
  | removeFile (path : PathBuf)
  | openDir (path : PathBuf)
  | syncDir (handle : List String)
  deriving DecidableEq

abbrev FsAns : FsOp → Type
  | .createDir _ | .metadata _ | .writeAll _ _ | .syncFile _ | .rename _ _ | .removeFile _
  | .syncDir _ => Except FsError Unit
  | .isDir _ => Bool
  | .createNew _ => Except FsError ℕ
  | .createTemp _ => Except FsError (PathBuf × ℕ)
  | .closeTemp _ => Unit
  | .write _ _ => Except FsError ℕ
  | .openDir _ => Except FsError (List String)

abbrev FsFallible (ε : Type) := Fallible FsOp FsAns ε

/-- Where the path leads, from its last component to the first. -/
def Benchctl.PathBuf.location (path : PathBuf) : List String :=
  (path.components.filter (· ≠ ".")).reverse

/-- The empty path names nothing, not even the current directory. -/
def Benchctl.PathBuf.isEmpty (path : PathBuf) : Bool := !path.absolute && path.components.isEmpty

def Benchctl.PathBuf.parent (path : PathBuf) : Option PathBuf :=
  if path.components = [] then none else some { path with components := path.components.dropLast }

def Benchctl.PathBuf.fileName (path : PathBuf) : Option String :=
  path.components.getLast?.filter (· ≠ ".")

section Paths

variable {path parent : PathBuf} {name : String}

theorem location_join (path : PathBuf) (hname : name ≠ ".") :
    (path.join name).location = name :: path.location := by
  simp [Benchctl.PathBuf.location, Benchctl.PathBuf.join, hname]

theorem fileName_ne_dot (hname : path.fileName = some name) : name ≠ "." := by
  simpa using (Option.filter_eq_some_iff.mp hname).2

/-- A path is its parent joined with its file name. -/
theorem eq_join (hparent : path.parent = some parent) (hname : path.fileName = some name) :
    path = parent.join name := by
  have hlast := (Option.filter_eq_some_iff.mp hname).1
  obtain ⟨absolute, components⟩ := path
  unfold Benchctl.PathBuf.parent at hparent
  split at hparent
  · cases hparent
  · next hne =>
    cases hparent
    rw [List.getLast?_eq_some_getLast hne] at hlast
    cases hlast
    simp only [Benchctl.PathBuf.join, List.dropLast_concat_getLast]

theorem location_eq_cons (hparent : path.parent = some parent) (hname : path.fileName = some name) :
    path.location = name :: parent.location := by
  rw [eq_join hparent hname, location_join parent (fileName_ne_dot hname)]

/-- The path of the components that `reversed` lists from the last one. -/
def pathAt (absolute : Bool) (reversed : List String) : PathBuf := ⟨absolute, reversed.reverse⟩

theorem pathAt_self (path : PathBuf) : pathAt path.absolute path.components.reverse = path := by
  rw [pathAt, List.reverse_reverse]

theorem location_pathAt (absolute : Bool) (reversed : List String) :
    (pathAt absolute reversed).location = reversed.filter (· ≠ ".") := by
  rw [Benchctl.PathBuf.location, pathAt, ← List.filter_reverse, List.reverse_reverse]

end Paths

/-- `mkdir`; a path that is a directory already is fine. -/
def makeDir (path : PathBuf) (missing : FsFallible FsError Unit) : FsFallible FsError Unit := do
  match ← ask (FsOp.createDir path) with
  | .ok () => return ()
  | .error .notFound => missing
  | .error e =>
    if ← ask (FsOp.isDir path) then
      return ()
    else
      throw e

def makeDirAgain (path : PathBuf) : FsFallible FsError Unit := do
  match ← ask (FsOp.createDir path) with
  | .ok () => return ()
  | .error e =>
    if ← ask (FsOp.isDir path) then
      return ()
    else
      throw e

def createDirAllAt (absolute : Bool) : List String → FsFallible FsError Unit
  | [] =>
    if absolute then
      makeDir (pathAt absolute []) (throw (.other "failed to create whole tree"))
    else
      pure ()
  | name :: dir =>
    makeDir (pathAt absolute (name :: dir)) do
      createDirAllAt absolute dir
      makeDirAgain (pathAt absolute (name :: dir))

/-- `fs::create_dir_all`. -/
def createDirAll (path : PathBuf) : FsFallible FsError Unit :=
  createDirAllAt path.absolute path.components.reverse

/-- The store, and the inodes that have ever been handed out. -/
structure FsState where
  store : Store String UInt8
  handles : List ℕ

namespace FsState

variable (s : FsState)

def entry (path : PathBuf) : Option Entry :=
  if path.isEmpty then none else s.store.now.entry path.location

def read (path : PathBuf) : Option Bytes := s.store.now.read path.location

/-- A new file under a name that is free. -/
def linkNew (location : List String) (inode : ℕ) : FsState where
  store := match location with
    | [] => s.store
    | name :: dir =>
      (s.store.setFile inode ⟨[], false⟩).changeDirectory dir [(name, some (.file inode))]
  handles := inode :: s.handles

/-- The location is free in a directory that exists. -/
def Vacant : List String → Prop
  | [] => False
  | name :: dir => s.store.now.entry dir = some .directory ∧
    (s.store.directory dir).current name = none

/-- An inode that no entry leads to, not even after a crash, and that nobody has open. -/
def Fresh (inode : ℕ) : Prop := s.store.Unlinked inode ∧ inode ∉ s.handles

def append (inode : ℕ) (bytes : Bytes) : FsState :=
  { s with store := s.store.setFile inode ⟨(s.store.file inode).bytes ++ bytes, false⟩ }

def unlink (location : List String) : FsState :=
  match location with
  | [] => s
  | name :: dir => { s with store := s.store.changeDirectory dir [(name, none)] }

/-- Within one directory, both names change at once. -/
def move (dir : List String) (source target : String) (inode : ℕ) : FsState :=
  { s with store := s.store.changeDirectory dir [(source, none), (target, some (.file inode))] }

/-- What a call does to the store; any may fail and then changes nothing, except that a write
may stop after some of the bytes. A file that exists is not reported as missing. -/
def act (temporary : String → Prop) : (op : FsOp) → FsState → FsAns op → FsState → Prop
  | .createDir path, s, (x : Except FsError Unit), s' => match x with
    | .ok () => s.Vacant path.location ∧
      s' = { s with store := s.store.makeDirectory path.location }
    | .error _ => s' = s
  | .isDir path, s, (x : Bool), s' => (x = true → s.entry path = some .directory) ∧ s' = s
  | .metadata path, s, (x : Except FsError Unit), s' =>
    (x = .ok () → (s.entry path).isSome) ∧ s' = s
  | .createNew path, s, (x : Except FsError ℕ), s' => match x with
    | .ok inode => s.Vacant path.location ∧ s.Fresh inode ∧ s' = s.linkNew path.location inode
    | .error _ => s' = s
  | .createTemp parent, s, (x : Except FsError (PathBuf × ℕ)), s' => match x with
    | .ok (path, inode) => ∃ name, temporary name ∧ name ≠ "." ∧ path = parent.join name ∧
      s.Vacant path.location ∧ s.Fresh inode ∧ s' = s.linkNew path.location inode
    | .error _ => s' = s
  | .closeTemp path, s, _, s' => s' = s ∨ s' = s.unlink path.location
  | .write inode bytes, s, (x : Except FsError ℕ), s' => match x with
    | .ok n => n ≤ bytes.length ∧ s' = s.append inode (bytes.take n)
    | .error _ => s' = s
  | .writeAll inode bytes, s, (x : Except FsError Unit), s' => match x with
    | .ok () => s' = s.append inode bytes
    | .error _ => ∃ n, s' = s.append inode (bytes.take n)
  | .syncFile inode, s, (x : Except FsError Unit), s' => match x with
    | .ok () => s' = { s with store := s.store.syncFile inode }
    | .error _ => s' = s
  | .rename source target, s, (x : Except FsError Unit), s' => match x with
    | .ok () => ∃ dir old new inode, source.location = old :: dir ∧ target.location = new :: dir ∧
      s.store.now.entry dir = some .directory ∧
      (s.store.directory dir).current old = some (.file inode) ∧
      (s.store.directory dir).current new ≠ some .directory ∧ s' = s.move dir old new inode
    | .error _ => s' = s
  | .removeFile path, s, (x : Except FsError Unit), s' => match x with
    | .ok () => (∃ inode, s.entry path = some (.file inode)) ∧ s' = s.unlink path.location
    | .error e => (e = .notFound → ∀ inode, s.entry path ≠ some (.file inode)) ∧ s' = s
  | .openDir path, s, (x : Except FsError (List String)), s' => match x with
    | .ok handle => s.entry path = some .directory ∧ handle = path.location ∧ s' = s
    | .error _ => s' = s
  | .syncDir handle, s, (x : Except FsError Unit), s' => match x with
    | .ok () => s' = { s with store := s.store.syncDirectory handle }
    | .error _ => s' = s

end FsState

def fsMachine (temporary : String → Prop) : Machine FsOp FsAns FsState where
  act := FsState.act temporary
  env _ _ := False

theorem fsMachine_closed (temporary : String → Prop) : Closed (fsMachine temporary) :=
  fun _ _ h => h

section CreateDirAll

variable {temporary : String → Prop} {I P : FsState → Prop} {dir : List String}

/-- Making a directory that is missing on the way keeps the assertion. -/
def KeptByMaking (P : FsState → Prop) (dir : List String) : Prop :=
  ∀ s name d, (name :: d) <:+ dir → (s.store.directory d).current name = none → P s →
    P { s with store := s.store.makeDirectory (name :: d) }

/-- Creating a prefix of the directory keeps what making it keeps. -/
theorem triple_createDir (hI : ∀ s, P s → I s) (hmake : KeptByMaking P dir) {path : PathBuf}
    (hsuffix : path.location <:+ dir) :
    Triple (ε := FsError) (fsMachine temporary) I P (ask (FsOp.createDir path)) (fun _ => P)
      fun _ _ => True := by
  apply (fsMachine_closed temporary).triple_ask
  intro s x s' _ hs hact
  have hs' : P s' := by
    cases x with
    | error e =>
      cases hact
      exact hs
    | ok _ =>
      obtain ⟨hvacant, rfl⟩ := hact
      generalize path.location = d at hsuffix hvacant ⊢
      cases d with
      | nil => exact hvacant.elim
      | cons name d => exact hmake s name d hsuffix hvacant.2 hs
  exact ⟨hI s' hs', hs'⟩

/-- A failed creation is forgiven when the directory is there by now. -/
theorem triple_retry (hI : ∀ s, P s → I s) (path : PathBuf) (e : FsError) :
    Triple (fsMachine temporary) I P
      (do
        if ← ask (FsOp.isDir path) then
          return ()
        else
          throw e : FsFallible FsError Unit) (fun _ => P) fun _ _ => True := by
  have hM := fsMachine_closed temporary
  have hisDir : Triple (ε := FsError) (fsMachine temporary) I P (ask (FsOp.isDir path))
      (fun _ => P) fun _ _ => True := by
    apply hM.triple_ask
    intro s x s' _ hs hact
    obtain ⟨-, rfl⟩ := hact
    exact ⟨hI s' hs, hs⟩
  apply hM.triple_bind hisDir
  intro found
  apply triple_ite
  · exact fun _ => hM.triple_pure fun _ _ hs => hs
  · exact fun _ => hM.triple_throw fun _ _ _ => trivial

theorem triple_makeDir (hI : ∀ s, P s → I s) (hmake : KeptByMaking P dir) {path : PathBuf}
    (hsuffix : path.location <:+ dir) {missing : FsFallible FsError Unit}
    (hmissing : Triple (fsMachine temporary) I P missing (fun _ => P) fun _ _ => True) :
    Triple (fsMachine temporary) I P (makeDir path missing) (fun _ => P) fun _ _ => True := by
  have hM := fsMachine_closed temporary
  apply hM.triple_bind (triple_createDir hI hmake hsuffix)
  rintro (e | _)
  · cases e with
    | notFound => exact hmissing
    | _ => exact triple_retry hI _ _
  · exact hM.triple_pure fun _ _ hs => hs

/-- Creating all the directories of a path keeps what making them keeps. -/
theorem triple_createDirAllAt (hI : ∀ s, P s → I s) (hmake : KeptByMaking P dir)
    (absolute : Bool) {names : List String} (hsuffix : (pathAt absolute names).location <:+ dir) :
    Triple (fsMachine temporary) I P (createDirAllAt absolute names) (fun _ => P)
      fun _ _ => True := by
  have hM := fsMachine_closed temporary
  induction names with
  | nil =>
    apply triple_ite
    · intro _
      apply triple_makeDir hI hmake hsuffix
      exact hM.triple_throw fun _ _ _ => trivial
    · exact fun _ => hM.triple_pure fun _ _ hs => hs
  | cons name rest ih =>
    have hrest : (pathAt absolute rest).location <:+ dir := by
      rw [location_pathAt] at hsuffix ⊢
      exact ((List.suffix_cons name rest).filter _).trans hsuffix
    apply triple_makeDir hI hmake hsuffix
    apply hM.triple_bind (ih hrest)
    intro _
    apply hM.triple_bind (triple_createDir hI hmake hsuffix)
    rintro (e | _)
    · exact triple_retry hI _ _
    · exact hM.triple_pure fun _ _ hs => hs

theorem triple_createDirAll (hI : ∀ s, P s → I s) {path : PathBuf}
    (hmake : KeptByMaking P path.location) :
    Triple (fsMachine temporary) I P (createDirAll path) (fun _ => P) fun _ _ => True := by
  apply triple_createDirAllAt hI hmake
  rw [pathAt_self]

end CreateDirAll

end Snoozer
