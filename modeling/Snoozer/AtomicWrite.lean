import Snoozer.FileSystem

/-! `atomic_write` of the state directory: at every point, with or without a crash, the path holds
what it held before or the new bytes. What it has published survives a crash exactly when the
directories above were settled before. -/
namespace Snoozer.Benchctl
open Interactive Interactive.Fallible DurableStore

def orFail {α : Type} (operation : String) : Except FsError α → FsFallible BenchError α
  | .ok a => pure a
  | .error e => throw (.io operation e.source)

/-- The same where a `NamedTempFile` goes out of scope, which removes the file. -/
def orClose {α : Type} (temp : PathBuf) (operation : String) :
    Except FsError α → FsFallible BenchError α
  | .ok a => pure a
  | .error e => do
    ask (FsOp.closeTemp temp)
    throw (.io operation e.source)

/-- From the open temporary file on. -/
def publishTemp (parent path temp : PathBuf) (inode : ℕ) (bytes : Bytes) :
    FsFallible BenchError Unit := do
  orClose temp "writing partial state" (← ask (FsOp.writeAll inode bytes))
  orClose temp "syncing partial state" (← ask (FsOp.syncFile inode))
  orClose temp "publishing state" (← ask (FsOp.rename temp path))
  let directory ← orFail "syncing state directory" (← ask (FsOp.openDir parent))
  orFail "syncing state directory" (← ask (FsOp.syncDir directory))

def atomicWrite (path : PathBuf) (bytes : Bytes) : FsFallible BenchError Unit :=
  match path.parent with
  | none => throw (.usage "state path has no parent")
  | some parent => do
    ExceptT.adapt (fun e => BenchError.io "creating state directory" e.source)
      (createDirAll parent)
    match path.fileName with
    | none => throw (.usage "state path has no file name")
    | some _ =>
      let (temp, inode) ← orFail "creating partial state" (← ask (FsOp.createTemp parent))
      publishTemp parent path temp inode bytes

/-- The path holds what it held before or the new bytes, both now and after a crash. -/
def Whole (s₀ : FsState) (path : PathBuf) (bytes : Bytes) (s : FsState) : Prop :=
  (s.read path = s₀.read path ∨ s.read path = some bytes) ∧
    Store.Replaces path.location bytes s₀.store s.store

/-- Nothing of the path has changed yet. -/
structure Untouched (s₀ : FsState) (name : String) (dir : List String) (s : FsState) : Prop where
  read : s.store.now.read (name :: dir) = s₀.store.now.read (name :: dir)
  shadows : Store.Shadows (name :: dir) s₀.store s.store
  settled : s.store.Settled dir ↔ s₀.store.Settled dir

/-- The temporary file stands beside the path with `content`. -/
structure Staged (s₀ : FsState) (name : String) (dir : List String) (temp : String) (inode : ℕ)
    (content : FileData UInt8) (s : FsState) : Prop extends Untouched s₀ name dir s where
  linked : (s.store.directory dir).current temp = some (.file inode)
  apart : ∀ l, (s.store.directory dir).Image l → l name ≠ some (.file inode)
  content : s.store.file inode = content

structure Published (s₀ : FsState) (name : String) (dir : List String) (inode : ℕ)
    (bytes : Bytes) (s : FsState) : Prop where
  read : s.store.now.read (name :: dir) = some bytes
  replaces : Store.Replaces (name :: dir) bytes s₀.store s.store
  settled : s.store.Settled dir ↔ s₀.store.Settled dir
  linked : (s.store.directory dir).current name = some (.file inode)
  content : s.store.file inode = ⟨bytes, true⟩

section Steps

variable {s₀ s : FsState} {name temp : String} {dir d : List String} {inode : ℕ}
  {content : FileData UInt8} {bytes : Bytes} {path parent : PathBuf}

theorem Untouched.refl (s : FsState) (name : String) (dir : List String) :
    Untouched s name dir s :=
  ⟨rfl, Store.Shadows.refl _ _, Iff.rfl⟩

theorem Untouched.whole (h : Untouched s₀ name dir s) (hpath : path.location = name :: dir) :
    Whole s₀ path bytes s := by
  unfold Whole FsState.read
  rw [hpath]
  exact ⟨Or.inl h.read, h.shadows.replaces bytes⟩

theorem Published.whole (h : Published s₀ name dir inode bytes s)
    (hpath : path.location = name :: dir) : Whole s₀ path bytes s := by
  unfold Whole FsState.read
  rw [hpath]
  exact ⟨Or.inr h.read, h.replaces⟩

/-- A directory that was missing on the way is made. -/
theorem Untouched.makeDirectory (h : Untouched s₀ name dir s) {n : String}
    (hsuffix : (n :: d) <:+ dir) (habsent : (s.store.directory d).current n = none) :
    Untouched s₀ name dir { s with store := s.store.makeDirectory (n :: d) } := by
  refine ⟨?_, h.shadows.trans (Store.shadows_makeDirectory habsent),
    (Store.settled_makeDirectory hsuffix habsent).trans h.settled⟩
  exact (Store.now_read_makeDirectory habsent _).trans h.read

/-- What happens to other entries of the directory does not concern the path. -/
theorem Untouched.changeDirectory (h : Untouched s₀ name dir s) {c : Change String}
    (hc : ∀ e ∈ c, e.1 ≠ name) :
    Untouched s₀ name dir { s with store := s.store.changeDirectory dir c } := by
  refine ⟨Eq.trans ?_ h.read, h.shadows.trans (Store.shadows_changeDirectory ?_),
    (Store.settled_changeDirectory _ _ _).trans h.settled⟩
  · refine View.read_congr (View.entry_congr ?_) fun _ _ => rfl
    intro n d hsuffix
    change ((s.store.changeDirectory dir c).directory d).current n =
      (s.store.directory d).current n
    by_cases hd : d = dir
    · subst hd
      rw [Store.directory_changeDirectory_self, Directory.current_change]
      apply Change.apply_of_forall_ne
      intro e he heq
      rcases List.suffix_cons_iff.mp hsuffix with hcons | hcons
      · exact hc e he (heq.trans (List.cons.inj hcons).1)
      · exact Store.ne_of_suffix hcons rfl
    · rw [Store.directory_changeDirectory hd]
  · intro e he hsuffix
    rcases List.suffix_cons_iff.mp hsuffix with hcons | hcons
    · exact hc e he (List.cons.inj hcons).1
    · exact Store.ne_of_suffix hcons rfl

/-- A file that the path does not lead to may be written. -/
theorem Untouched.setFile (h : Untouched s₀ name dir s) {data : FileData UInt8}
    (hapart : ∀ l, (s.store.directory dir).Image l → l name ≠ some (.file inode)) :
    Untouched s₀ name dir { s with store := s.store.setFile inode data } := by
  refine ⟨Eq.trans ?_ h.read, h.shadows.trans (Store.shadows_setFile data ?_), h.settled⟩
  · refine View.read_congr (View.entry_congr fun _ _ _ => rfl) ?_
    intro i hi
    change (Function.update s.store.file inode data i).bytes = (s.store.file i).bytes
    rw [Function.update_of_ne]
    rintro rfl
    by_cases hd : s.store.now.entry dir = some .directory
    · rw [View.entry_cons hd] at hi
      exact hapart _ (s.store.directory dir).image_current hi
    · rw [View.entry_cons_of_ne hd] at hi
      cases hi
  · rintro n d heq
    cases heq
    exact hapart

/-- Reserving a temporary name leaves the published file as it was. -/
theorem Untouched.stage (h : Untouched s₀ name dir s) (hne : temp ≠ name)
    (hfresh : s.Fresh inode) :
    Staged s₀ name dir temp inode ⟨[], false⟩ (s.linkNew (temp :: dir) inode) := by
  have hfile : Untouched s₀ name dir { s with store := s.store.setFile inode ⟨[], false⟩ } :=
    h.setFile fun l hl => hfresh.1 dir l hl name
  have hlinked := hfile.changeDirectory (c := [(temp, some (.file inode))]) (by
    intro e he
    rw [List.mem_singleton.mp he]
    exact hne)
  have hdirectory : ((s.linkNew (temp :: dir) inode).store.directory dir) =
      (s.store.directory dir).change [(temp, some (.file inode))] :=
    Store.directory_changeDirectory_self _ _ _
  refine ⟨⟨hlinked.read, hlinked.shadows, hlinked.settled⟩, ?_, ?_, Function.update_self ..⟩
  · rw [hdirectory, Directory.current_change, Change.apply_single, Function.update_self]
  · intro l hl
    rw [hdirectory] at hl
    rcases Directory.image_change.mp hl with himage | ⟨l', himage, rfl⟩
    · exact hfresh.1 dir l himage name
    · rw [Change.apply_single, Function.update_of_ne hne.symm]
      exact hfresh.1 dir l' himage name

theorem Staged.setFile (h : Staged s₀ name dir temp inode content s) (data : FileData UInt8) :
    Staged s₀ name dir temp inode data { s with store := s.store.setFile inode data } :=
  ⟨h.toUntouched.setFile h.apart, h.linked, h.apart, Function.update_self ..⟩

/-- The rename replaces the path at once. -/
theorem Staged.publish (h : Staged s₀ name dir temp inode ⟨bytes, true⟩ s)
    (hdir : s.store.now.entry dir = some .directory) :
    Published s₀ name dir inode bytes (s.move dir temp name inode) := by
  have happly : ∀ l : Listing String,
      Change.apply l [(temp, none), (name, some (.file inode))] name = some (.file inode) :=
    fun l => Function.update_self ..
  have hdirectory : (s.move dir temp name inode).store.directory dir =
      (s.store.directory dir).change [(temp, none), (name, some (.file inode))] :=
    Store.directory_changeDirectory_self _ _ _
  have hlinked : ((s.move dir temp name inode).store.directory dir).current name =
      some (.file inode) := by
    rw [hdirectory, Directory.current_change, happly]
  refine ⟨?_, h.shadows.replaces_trans (Store.replaces_changeDirectory happly h.content),
    (Store.settled_changeDirectory _ _ _).trans h.settled, hlinked, h.content⟩
  have hentry : (s.move dir temp name inode).store.now.entry dir = some .directory := by
    rw [← hdir]
    apply View.entry_congr
    intro n d hsuffix
    change ((s.store.changeDirectory dir _).directory d).current n = _
    rw [Store.directory_changeDirectory (Store.ne_of_suffix hsuffix)]
    rfl
  have hfound : (s.move dir temp name inode).store.now.entry (name :: dir) =
      some (.file inode) := by
    rw [View.entry_cons hentry]
    exact hlinked
  rw [View.read_of_entry hfound]
  exact congrArg some (congrArg FileData.bytes h.content)

theorem Published.syncDirectory (h : Published s₀ name dir inode bytes s) :
    Published s₀ name dir inode bytes { s with store := s.store.syncDirectory dir } := by
  refine ⟨?_, h.replaces.shadows_trans (Store.shadows_syncDirectory _ _ _),
    (Store.settled_syncDirectory _ _).trans h.settled, ?_, h.content⟩
  · rw [← h.read]
    refine View.read_congr (View.entry_congr fun n d _ => ?_) fun _ _ => rfl
    exact congrFun (Store.current_syncDirectory s.store dir d) n
  · rw [Store.current_syncDirectory]
    exact h.linked

end Steps

section Run

variable {temporary : String → Prop} {s₀ : FsState} {name temp : String} {dir d : List String}
  {inode : ℕ} {bytes : Bytes} {path parent partialPath : PathBuf} {ε : Type}

/-- What the calls of one step keep and establish. -/
abbrev Writes (temporary : String → Prop) (s₀ : FsState) (path : PathBuf) (bytes : Bytes)
    {ε α : Type} (P : FsState → Prop) (p : FsFallible ε α) (A : α → FsState → Prop) : Prop :=
  Triple (fsMachine temporary) (Whole s₀ path bytes) P p A fun _ _ => True

theorem writes_orFail {α : Type} {P : α → FsState → Prop} (operation : String)
    (x : Except FsError α) :
    Writes temporary s₀ path bytes (fun s => ∀ a, x = .ok a → P a s) (orFail operation x) P := by
  have hM := fsMachine_closed temporary
  cases x with
  | ok a => exact hM.triple_pure fun _ _ hs => hs a rfl
  | error e => exact hM.triple_throw fun _ _ _ => trivial

/-- Dropping the temporary file leaves the path alone. -/
theorem writes_orClose {α : Type} {P : α → FsState → Prop} (hpath : path.location = name :: dir)
    (htemp : partialPath.location = temp :: dir) (hne : temp ≠ name) (operation : String)
    (x : Except FsError α) :
    Writes temporary s₀ path bytes
      (fun s => (∀ a, x = .ok a → P a s) ∧ ∀ e, x = .error e → Untouched s₀ name dir s)
      (orClose partialPath operation x) P := by
  have hM := fsMachine_closed temporary
  cases x with
  | ok a => exact hM.triple_pure fun _ _ hs => hs.1 a rfl
  | error e =>
    have hclose : Writes temporary s₀ path bytes (ε := BenchError)
        (fun s => (∀ a : α, Except.error e = .ok a → P a s) ∧
          ∀ e', Except.error (α := α) e = .error e' → Untouched s₀ name dir s)
        (ask (FsOp.closeTemp partialPath)) fun _ _ => True := by
      apply hM.triple_ask
      rintro s x s' - ⟨-, hs⟩ (rfl | rfl)
      · exact ⟨(hs e rfl).whole hpath, trivial⟩
      · have hs' : Untouched s₀ name dir (s.unlink partialPath.location) := by
          rw [htemp]
          apply (hs e rfl).changeDirectory
          intro e' he'
          rw [List.mem_singleton.mp he']
          exact hne
        exact ⟨hs'.whole hpath, trivial⟩
    apply hM.triple_bind hclose
    exact fun _ => hM.triple_throw fun _ _ _ => trivial

/-- The bytes go to the reserved file only. -/
theorem writes_writeAll (hpath : path.location = name :: dir) :
    Writes temporary s₀ path bytes (ε := BenchError) (Staged s₀ name dir temp inode ⟨[], false⟩)
      (ask (FsOp.writeAll inode bytes)) fun x s =>
        (∀ a, x = .ok a → Staged s₀ name dir temp inode ⟨bytes, false⟩ s) ∧
          ∀ e, x = .error e → Untouched s₀ name dir s := by
  apply (fsMachine_closed temporary).triple_ask
  intro s x s' _ hs hact
  cases x with
  | error e =>
    obtain ⟨n, rfl⟩ := hact
    have hs' := (hs.setFile ⟨(s.store.file inode).bytes ++ bytes.take n, false⟩).toUntouched
    exact ⟨hs'.whole hpath, fun _ h => (nomatch h), fun _ _ => hs'⟩
  | ok _ =>
    cases hact
    have hs' := hs.setFile ⟨(s.store.file inode).bytes ++ bytes, false⟩
    refine ⟨hs'.toUntouched.whole hpath, fun _ _ => ?_, fun _ h => nomatch h⟩
    rw [hs.content] at hs'
    simpa only [FsState.append, hs.content, List.nil_append] using hs'

/-- Syncing the reserved file makes its bytes durable and nothing else. -/
theorem writes_syncFile (hpath : path.location = name :: dir) :
    Writes temporary s₀ path bytes (ε := BenchError) (Staged s₀ name dir temp inode ⟨bytes, false⟩)
      (ask (FsOp.syncFile inode)) fun x s =>
        (∀ a, x = .ok a → Staged s₀ name dir temp inode ⟨bytes, true⟩ s) ∧
          ∀ e, x = .error e → Untouched s₀ name dir s := by
  apply (fsMachine_closed temporary).triple_ask
  intro s x s' _ hs hact
  cases x with
  | error e =>
    cases hact
    exact ⟨hs.toUntouched.whole hpath, fun _ h => (nomatch h), fun _ _ => hs.toUntouched⟩
  | ok _ =>
    cases hact
    have hs' := hs.setFile ⟨(s.store.file inode).bytes, true⟩
    refine ⟨hs'.toUntouched.whole hpath, fun _ _ => ?_, fun _ h => nomatch h⟩
    rw [hs.content] at hs'
    simpa only [Store.syncFile, hs.content] using hs'

/-- The rename publishes the synced file, or leaves the old one in place. -/
theorem writes_rename (hpath : path.location = name :: dir)
    (htemp : partialPath.location = temp :: dir) :
    Writes temporary s₀ path bytes (ε := BenchError) (Staged s₀ name dir temp inode ⟨bytes, true⟩)
      (ask (FsOp.rename partialPath path)) fun x s =>
        (∀ a, x = .ok a → Published s₀ name dir inode bytes s) ∧
          ∀ e, x = .error e → Untouched s₀ name dir s := by
  apply (fsMachine_closed temporary).triple_ask
  intro s x s' _ hs hact
  cases x with
  | error e =>
    cases hact
    exact ⟨hs.toUntouched.whole hpath, fun _ h => (nomatch h), fun _ _ => hs.toUntouched⟩
  | ok _ =>
    obtain ⟨d, old, new, i, hold, hnew, hdir, hlinked, -, rfl⟩ := hact
    rw [htemp] at hold
    rw [hpath] at hnew
    cases hold
    cases hnew
    cases hs.linked.symm.trans hlinked
    have hs' := hs.publish hdir
    exact ⟨hs'.whole hpath, fun _ _ => hs', fun _ h => nomatch h⟩

/-- The directory that is opened is the one the file was published in. -/
theorem writes_openDir (hpath : path.location = name :: dir) (hparent : parent.location = dir) :
    Writes temporary s₀ path bytes (ε := BenchError) (Published s₀ name dir inode bytes)
      (ask (FsOp.openDir parent)) fun x s =>
        ∀ handle, x = .ok handle → handle = dir ∧ Published s₀ name dir inode bytes s := by
  apply (fsMachine_closed temporary).triple_ask
  intro s x s' _ hs hact
  cases x with
  | error e =>
    cases hact
    exact ⟨hs.whole hpath, fun _ h => nomatch h⟩
  | ok handle =>
    obtain ⟨-, rfl, rfl⟩ := hact
    refine ⟨hs.whole hpath, ?_⟩
    rintro _ ⟨⟩
    exact ⟨hparent, hs⟩

/-- The file survives every crash, if the directories above it do. -/
def Kept (s₀ : FsState) (name : String) (dir : List String) (bytes : Bytes) (s : FsState) : Prop :=
  s.store.Durable (name :: dir) bytes ↔ s₀.store.Settled dir

/-- Syncing the directory keeps what was published. -/
theorem writes_syncDir (hpath : path.location = name :: dir) :
    Writes temporary s₀ path bytes (ε := BenchError) (Published s₀ name dir inode bytes)
      (ask (FsOp.syncDir dir)) fun x s => ∀ a : Unit, x = .ok a → Kept s₀ name dir bytes s := by
  apply (fsMachine_closed temporary).triple_ask
  intro s x s' _ hs hact
  cases x with
  | error e =>
    cases hact
    exact ⟨hs.whole hpath, fun _ h => nomatch h⟩
  | ok _ =>
    cases hact
    have hs' := hs.syncDirectory
    refine ⟨hs'.whole hpath, fun _ _ => ?_⟩
    refine Iff.trans (Store.durable_iff_settled ?_ hs'.linked hs'.content) hs'.settled
    rw [Store.directory_syncDirectory_self]
    rfl

/-- From the reserved file to the kept one, or back to an untouched name. -/
theorem writes_publishTemp (hpath : path.location = name :: dir) (hparent : parent.location = dir)
    (htemp : partialPath.location = temp :: dir) (hne : temp ≠ name) :
    Writes temporary s₀ path bytes (Staged s₀ name dir temp inode ⟨[], false⟩)
      (publishTemp parent path partialPath inode bytes) fun _ => Kept s₀ name dir bytes := by
  have hM := fsMachine_closed temporary
  apply hM.triple_bind (writes_writeAll hpath)
  intro x
  apply hM.triple_bind (writes_orClose hpath htemp hne _ x)
  intro _
  apply hM.triple_bind (writes_syncFile hpath)
  intro x
  apply hM.triple_bind (writes_orClose hpath htemp hne _ x)
  intro _
  apply hM.triple_bind (writes_rename hpath htemp)
  intro x
  apply hM.triple_bind (writes_orClose hpath htemp hne _ x)
  intro _
  apply hM.triple_bind (writes_openDir hpath hparent)
  intro x
  apply hM.triple_bind (writes_orFail _ x)
  intro handle
  apply triple_of_pure
  rintro rfl
  apply hM.triple_bind (writes_syncDir hpath)
  intro x
  exact writes_orFail _ x

/-- The name that the temporary file gets is one of the library's, and `name` is not. -/
theorem writes_createTemp (hpath : path.location = name :: dir) (hparent : parent.location = dir)
    (hname : ¬ temporary name) :
    Writes temporary s₀ path bytes (ε := BenchError) (Untouched s₀ name dir)
      (ask (FsOp.createTemp parent)) fun x s => ∀ a : PathBuf × ℕ, x = .ok a →
        ∃ temp, (a.1.location = temp :: dir ∧ temp ≠ name) ∧
          Staged s₀ name dir temp a.2 ⟨[], false⟩ s := by
  apply (fsMachine_closed temporary).triple_ask
  intro s x s' _ hs hact
  cases x with
  | error e =>
    cases hact
    exact ⟨hs.whole hpath, fun _ h => nomatch h⟩
  | ok a =>
    obtain ⟨partialPath, inode⟩ := a
    obtain ⟨temp, htemp, hdot, rfl, -, hfresh, rfl⟩ := hact
    rw [location_join parent hdot, hparent]
    have hne : temp ≠ name := fun h => hname (h ▸ htemp)
    have hs' := hs.stage hne hfresh
    refine ⟨hs'.toUntouched.whole hpath, ?_⟩
    rintro _ ⟨⟩
    exact ⟨temp, ⟨by rw [location_join parent hdot, hparent], hne⟩, hs'⟩

/-- The path shows its old bytes or all of the new ones at every point of a write, and a completed
one survives a crash if the directories do. -/
theorem writes_atomicWrite (hparent : path.parent = some parent)
    (hfile : path.fileName = some name) (hname : ¬ temporary name) :
    Writes temporary s₀ path bytes (Untouched s₀ name parent.location) (atomicWrite path bytes)
      fun _ => Kept s₀ name parent.location bytes := by
  have hM := fsMachine_closed temporary
  have hpath := location_eq_cons hparent hfile
  unfold atomicWrite
  simp only [hparent, hfile]
  have hcreate : Writes temporary s₀ path bytes (Untouched s₀ name parent.location)
      (createDirAll parent) fun _ => Untouched s₀ name parent.location := by
    apply triple_createDirAll
    · exact fun _ hs => hs.whole hpath
    · exact fun _ _ _ hsuffix habsent hs => hs.makeDirectory hsuffix habsent
  apply hM.triple_bind (hM.triple_adapt hcreate)
  intro _
  apply hM.triple_bind (writes_createTemp hpath rfl hname)
  intro x
  apply hM.triple_bind (writes_orFail _ x)
  rintro ⟨partialPath, inode⟩
  apply triple_exists
  intro temp
  apply triple_of_pure
  rintro ⟨htemp, hne⟩
  exact writes_publishTemp hpath rfl htemp hne

/-- Without a file name, only directories are made. -/
theorem throws_atomicWrite (hparent : path.parent = some parent) (hfile : path.fileName = none) :
    Writes temporary s₀ path bytes (fun s => s.read path = s₀.read path ∧
      Store.Shadows path.location s₀.store s.store) (atomicWrite path bytes) fun _ _ => False := by
  have hM := fsMachine_closed temporary
  unfold atomicWrite
  simp only [hparent, hfile]
  have hcreate : Writes temporary s₀ path bytes (fun s => s.read path = s₀.read path ∧
      Store.Shadows path.location s₀.store s.store) (createDirAll parent) fun _ s =>
        s.read path = s₀.read path ∧ Store.Shadows path.location s₀.store s.store := by
    apply triple_createDirAll
    · exact fun _ hs => ⟨Or.inl hs.1, hs.2.replaces bytes⟩
    · intro s n d _ habsent hs
      constructor
      · exact (Store.now_read_makeDirectory habsent _).trans hs.1
      · exact hs.2.trans (Store.shadows_makeDirectory habsent)
  apply hM.triple_bind (hM.triple_adapt hcreate)
  exact fun _ => hM.triple_throw fun _ _ _ => trivial

end Run

/-- At every point of every run, whichever call fails, the path holds what it held before or the
new bytes, and so it does after a crash at that point. What has been published survives every
later crash if and only if every directory on the way was settled before. -/
theorem atomic_write_durable_iff {temporary : String → Prop} {path : PathBuf}
    (hname : ∀ name, path.fileName = some name → ¬ temporary name) (bytes : Bytes) (s₀ : FsState) :
    (∀ q s, Reach (fsMachine temporary) ((atomicWrite path bytes).run, s₀) (q, s) →
      Whole s₀ path bytes s) ∧
    ∀ s, Reach (fsMachine temporary) ((atomicWrite path bytes).run, s₀) (.ret (.ok ()), s) →
      (s.store.Durable path.location bytes ↔ s₀.store.Settled path.location.tail) := by
  have hM := fsMachine_closed temporary
  have hstart : Whole s₀ path bytes s₀ :=
    ⟨Or.inl rfl, (Store.Shadows.refl _ _).replaces bytes⟩
  cases hparent : path.parent with
  | none =>
    have hthrow : Writes temporary s₀ path bytes (fun _ => True) (atomicWrite path bytes)
        fun _ _ => False := by
      unfold atomicWrite
      simp only [hparent]
      exact hM.triple_throw fun _ _ _ => trivial
    constructor
    · exact fun q s hr => hthrow.invariant hstart trivial hr
    · exact fun s hr => (hthrow.returns hstart trivial hr).2.elim
  | some parent =>
    cases hfile : path.fileName with
    | none =>
      have hthrow : Writes temporary s₀ path bytes _ _ _ := throws_atomicWrite hparent hfile
      constructor
      · exact fun q s hr => hthrow.invariant hstart ⟨rfl, Store.Shadows.refl _ _⟩ hr
      · exact fun s hr => (hthrow.returns hstart ⟨rfl, Store.Shadows.refl _ _⟩ hr).2.elim
    | some name =>
      have hpath := location_eq_cons hparent hfile
      have hrun : Writes temporary s₀ path bytes _ _ _ :=
        writes_atomicWrite hparent hfile (hname name hfile)
      constructor
      · exact fun q s hr => hrun.invariant hstart (Untouched.refl s₀ _ _) hr
      · intro s hr
        rw [hpath]
        exact (hrun.returns hstart (Untouched.refl s₀ _ _) hr).2

/-- With its directory in place, a write succeeds if no call fails. -/
theorem atomicWrite_reach {temporary : String → Prop} {path parent : PathBuf} {name temp : String}
    {bytes : Bytes} {s₀ s : FsState} {inode : ℕ} (hparent : path.parent = some parent)
    (hfile : path.fileName = some name) (hname : ¬ temporary name) (htemp : temporary temp)
    (hdot : temp ≠ ".")
    (hdirs : Reach (fsMachine temporary) ((createDirAll parent).run, s₀) (.ret (.ok ()), s))
    (hempty : parent.isEmpty = false) (hdir : s.store.now.entry parent.location = some .directory)
    (hvacant : (s.store.directory parent.location).current temp = none)
    (hfresh : s.Fresh inode)
    (htarget : (s.store.directory parent.location).current name ≠ some .directory) :
    ∃ s', Reach (fsMachine temporary) ((atomicWrite path bytes).run, s₀) (.ret (.ok ()), s') := by
  have hpath := location_eq_cons hparent hfile
  have hne : temp ≠ name := fun h => hname (h ▸ htemp)
  have hjoin : (parent.join temp).location = temp :: parent.location := location_join _ hdot
  -- The states after the calls.
  obtain ⟨s₁, hs₁⟩ : ∃ s₁, s₁ = s.linkNew (parent.join temp).location inode := ⟨_, rfl⟩
  obtain ⟨s₂, hs₂⟩ : ∃ s₂, s₂ = s₁.append inode bytes := ⟨_, rfl⟩
  obtain ⟨s₃, hs₃⟩ : ∃ s₃ : FsState, s₃ = { s₂ with store := s₂.store.syncFile inode } := ⟨_, rfl⟩
  obtain ⟨s₄, hs₄⟩ : ∃ s₄, s₄ = s₃.move parent.location temp name inode := ⟨_, rfl⟩
  have hstore : s₃.store.directory = (s.store.changeDirectory parent.location
      [(temp, some (.file inode))]).directory := by
    rw [hs₃, hs₂, hs₁, hjoin]
    rfl
  have hhere : ∀ t : FsState, ∀ c, t.store.directory =
      (s₃.store.changeDirectory parent.location c).directory ∨
        t.store.directory = s₃.store.directory →
      t.store.now.entry parent.location = some .directory := by
    intro t c ht
    rw [← hdir]
    apply View.entry_congr
    intro n d hsuffix
    have hd := Store.ne_of_suffix hsuffix
    change (t.store.directory d).current n = (s.store.directory d).current n
    rcases ht with ht | ht
    · rw [ht, Store.directory_changeDirectory hd, hstore, Store.directory_changeDirectory hd]
    · rw [ht, hstore, Store.directory_changeDirectory hd]
  have hlisting : ∀ n, (s₃.store.directory parent.location).current n =
      Function.update (s.store.directory parent.location).current temp (some (.file inode)) n := by
    intro n
    rw [hstore, Store.directory_changeDirectory_self, Directory.current_change,
      Change.apply_single]
  have hcreate : (fsMachine temporary).act (.createTemp parent) s
      (.ok (parent.join temp, inode) : Except FsError _) s₁ := by
    refine ⟨temp, htemp, hdot, rfl, ?_, hfresh, hs₁⟩
    rw [hjoin]
    exact ⟨hdir, hvacant⟩
  have hrename : (fsMachine temporary).act (.rename (parent.join temp) path) s₃
      (.ok () : Except FsError _) s₄ := by
    refine ⟨parent.location, temp, name, inode, hjoin, hpath, hhere s₃ [] (Or.inr rfl), ?_, ?_, hs₄⟩
    · rw [hlisting, Function.update_self]
    · rw [hlisting, Function.update_of_ne hne.symm]
      exact htarget
  have hopen : (fsMachine temporary).act (.openDir parent) s₄
      (.ok parent.location : Except FsError _) s₄ := by
    refine ⟨?_, rfl, rfl⟩
    unfold FsState.entry
    rw [hempty, hs₄]
    exact hhere _ _ (Or.inl rfl)
  have hwrite : (fsMachine temporary).act (.writeAll inode bytes) s₁
      (.ok () : Except FsError _) s₂ := hs₂
  have hsync : (fsMachine temporary).act (.syncFile inode) s₂ (.ok () : Except FsError _) s₃ := hs₃
  have hlast : (fsMachine temporary).act (.syncDir parent.location) s₄ (.ok () : Except FsError _)
      { s₄ with store := s₄.store.syncDirectory parent.location } := rfl
  refine ⟨{ s₄ with store := s₄.store.syncDirectory parent.location }, ?_⟩
  unfold atomicWrite
  simp only [hparent, hfile]
  have hfirst := Reach.bind (Reach.bind hdirs fun r => .ret (Except.mapError
    (fun e : FsError => BenchError.io "creating state directory" e.source) r))
    (ExceptT.bindCont fun _ : Unit => do
      let (temp, inode) ← orFail "creating partial state" (← ask (FsOp.createTemp parent))
      publishTemp parent path temp inode bytes)
  refine Relation.ReflTransGen.trans hfirst ?_
  refine .head (.call hcreate) ?_
  refine .head (.call hwrite) ?_
  refine .head (.call hsync) ?_
  refine .head (.call hrename) ?_
  refine .head (.call hopen) ?_
  refine .head (.call hlast) ?_
  exact .refl

/-- What a library might call its files. -/
def sampleTemporary (name : String) : Prop := name = ".tmpX"

/-- The root, in which the directory `a` may have been settled; there is no file. -/
def stateParent (made : Bool) : FsState where
  store :=
    { directory := fun p =>
        if p = [] ∧ made = true then ⟨fun n => if n = "a" then some .directory else none, []⟩
        else .empty
      file := fun _ => ⟨[], true⟩ }
  handles := []

/-- No name of the sample's directory belongs to the inode. -/
theorem stateParent_unlinked (made : Bool) (inode : ℕ) :
    (stateParent made).store.Unlinked inode := by
  intro p l hl
  apply hl.ne
  · intro n
    simp only [stateParent]
    split
    · dsimp only
      split
      · exact nofun
      · exact nofun
    · exact nofun
  · intro c hc
    simp only [stateParent] at hc
    split at hc
    · cases hc
    · cases hc

/-- One write of the sample runs to its end. -/
theorem atomicWrite_settled_sample : ∃ s, Reach (fsMachine sampleTemporary)
    ((atomicWrite ⟨true, ["a", "f"]⟩ [1]).run, stateParent true) (.ret (.ok ()), s) := by
  have hcreate : (fsMachine sampleTemporary).act (.createDir ⟨true, ["a"]⟩) (stateParent true)
      (.error .alreadyExists : Except FsError Unit) (stateParent true) := rfl
  have hdir : (stateParent true).entry ⟨true, ["a"]⟩ = some .directory := by decide
  have hisDir : (fsMachine sampleTemporary).act (.isDir ⟨true, ["a"]⟩) (stateParent true) true
      (stateParent true) := ⟨fun _ => hdir, rfl⟩
  have hdirs : Reach (fsMachine sampleTemporary) ((createDirAll ⟨true, ["a"]⟩).run, stateParent true)
      (.ret (.ok ()), stateParent true) :=
    .head (.call hcreate) (.head (.call hisDir) .refl)
  have hname : ¬ sampleTemporary "f" := by
    unfold sampleTemporary
    decide
  have htemp : sampleTemporary ".tmpX" := rfl
  apply atomicWrite_reach rfl rfl hname htemp (by decide) hdirs rfl
  · decide
  · decide
  · exact ⟨stateParent_unlinked true 0, List.not_mem_nil⟩
  · decide

/-- A directory that was settled before keeps the new file. -/
theorem atomic_write_durable_sample : ∃ s, Reach (fsMachine sampleTemporary)
    ((atomicWrite ⟨true, ["a", "f"]⟩ [1]).run, stateParent true) (.ret (.ok ()), s) ∧
      (s.store.Durable ["f", "a"] [1] ↔ (stateParent true).store.Settled ["a"]) := by
  obtain ⟨s, hr⟩ := atomicWrite_settled_sample
  have hname : ∀ name, PathBuf.fileName ⟨true, ["a", "f"]⟩ = some name →
      ¬ sampleTemporary name := by
    rintro _ ⟨⟩
    unfold sampleTemporary
    decide
  exact ⟨s, hr, (atomic_write_durable_iff hname [1] (stateParent true)).2 s hr⟩

/-- The directory is made for the file; the write returns and a crash loses both. -/
theorem atomic_write_loses_directory : ∃ s, Reach (fsMachine sampleTemporary)
    ((atomicWrite ⟨true, ["a", "f"]⟩ [1]).run, stateParent false) (.ret (.ok ()), s) ∧
      ¬ s.store.Durable ["f", "a"] [1] := by
  have hmade : (fsMachine sampleTemporary).act (.createDir ⟨true, ["a"]⟩) (stateParent false)
      (.ok () : Except FsError Unit)
      { stateParent false with store := (stateParent false).store.makeDirectory ["a"] } :=
    ⟨⟨rfl, rfl⟩, rfl⟩
  have hdirs : Reach (fsMachine sampleTemporary)
      ((createDirAll ⟨true, ["a"]⟩).run, stateParent false) (.ret (.ok ()),
        { stateParent false with store := (stateParent false).store.makeDirectory ["a"] }) :=
    .head (.call hmade) .refl
  have hunlinked : ((stateParent false).store.makeDirectory ["a"]).Unlinked 0 := by
    intro p l hl
    by_cases hp : p = ["a"]
    · subst hp
      rw [Store.directory_makeDirectory_self] at hl
      apply hl.ne
      · exact fun _ h => nomatch h
      · exact fun _ h => nomatch h
    · rw [Store.directory_makeDirectory hp] at hl
      by_cases hp' : p = []
      · subst hp'
        rw [Store.directory_changeDirectory_self] at hl
        rcases Directory.image_change.mp hl with himage | ⟨l', himage, rfl⟩
        · exact stateParent_unlinked false 0 [] l himage
        · intro n
          rw [Change.apply_single]
          by_cases hn : n = "a"
          · subst hn
            rw [Function.update_self]
            exact nofun
          · rw [Function.update_of_ne hn]
            exact stateParent_unlinked false 0 [] l' himage n
      · rw [Store.directory_changeDirectory hp'] at hl
        exact stateParent_unlinked false 0 p l hl
  have hname : ¬ sampleTemporary "f" := by
    unfold sampleTemporary
    decide
  have htemp : sampleTemporary ".tmpX" := rfl
  obtain ⟨s, hr⟩ : ∃ s, Reach (fsMachine sampleTemporary)
      ((atomicWrite ⟨true, ["a", "f"]⟩ [1]).run, stateParent false) (.ret (.ok ()), s) := by
    apply atomicWrite_reach rfl rfl hname htemp (by decide) hdirs rfl
    · decide
    · decide
    · exact ⟨hunlinked, List.not_mem_nil⟩
    · decide
  have hparent : PathBuf.parent ⟨true, ["a", "f"]⟩ = some ⟨true, ["a"]⟩ := rfl
  have hfile : PathBuf.fileName ⟨true, ["a", "f"]⟩ = some "f" := rfl
  have hrun : Kept (stateParent false) "f" ["a"] [1] s :=
    ((writes_atomicWrite hparent hfile hname).returns
      ⟨Or.inl rfl, (Store.Shadows.refl _ _).replaces [1]⟩ (Untouched.refl _ _ _) hr).2
  refine ⟨s, hr, fun hdurable => ?_⟩
  have hentry := hrun.mp hdurable "a" [] (List.suffix_refl _) _ (Directory.image_current _)
  exact nomatch hentry

end Snoozer.Benchctl
