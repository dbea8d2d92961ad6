import Snoozer.DurableStore

/-! Which file stands at which path, and how the changes of a directory move files: to what can be
read, a store is no more than a map from paths to files and one from files to their bytes. -/
namespace DurableStore

variable {Name β : Type} [DecidableEq Name]

/-- A name that a change mentions gets one of the entries it lists. -/
theorem Change.apply_of_mem {c : Change Name} {e : Name × Option Entry} (h : e ∈ c)
    (listing : Listing Name) : ∃ e' ∈ c, e'.1 = e.1 ∧ c.apply listing e.1 = e'.2 := by
  induction c generalizing e listing with
  | nil => cases h
  | cons x c ih =>
    by_cases hlater : ∃ e' ∈ c, e'.1 = e.1
    · obtain ⟨e', he', hname⟩ := hlater
      obtain ⟨e'', he'', hname', happly⟩ :=
        ih he' (Function.update listing x.1 x.2)
      refine ⟨e'', List.mem_cons_of_mem _ he'', hname'.trans hname, ?_⟩
      rw [← hname]
      exact happly
    · have hx : e = x := by
        rcases List.mem_cons.mp h with heq | hmem
        · exact heq
        · exact absurd ⟨e, hmem, rfl⟩ hlater
      subst hx
      refine ⟨e, List.mem_cons_self, rfl, ?_⟩
      have hrest : ∀ e' ∈ c, e'.1 ≠ e.1 := fun e' he' hname => hlater ⟨e', he', hname⟩
      have hsame := Change.apply_of_forall_ne hrest (Function.update listing e.1 e.2)
      rw [Function.update_self] at hsame
      exact hsame

namespace View

variable {v v' : View Name β} {path : List Name}

omit [DecidableEq Name] in
/-- Where nothing lies below what has changed, everything else is as it was. -/
theorem entry_unchanged (changed : List Name → Prop)
    (hlisting : ∀ name dir, ¬ changed (name :: dir) → ¬ changed dir →
      v'.listing dir name = v.listing dir name)
    (hbelow : ∀ q, changed q → ∀ name, v.entry (name :: q) = none ∧ v'.entry (name :: q) = none)
    (hpath : ¬ changed path) : v'.entry path = v.entry path := by
  induction path with
  | nil => rfl
  | cons name dir ih =>
    by_cases hdir : changed dir
    · obtain ⟨hbefore, hafter⟩ := hbelow dir hdir name
      rw [hbefore, hafter]
    · simp only [entry, ih hdir, hlisting name dir hpath hdir]

/-- The file at a path, if there is one. -/
def fileAt (v : View Name β) (path : List Name) : Option ℕ :=
  match v.entry path with
  | some (.file inode) => some inode
  | _ => none

omit [DecidableEq Name] in
theorem fileAt_eq_some {inode : ℕ} :
    v.fileAt path = some inode ↔ v.entry path = some (.file inode) := by
  unfold fileAt
  split
  · next i hentry => rw [hentry, Option.some.injEq, Option.some.injEq, Entry.file.injEq]
  · next hno =>
    constructor
    · intro h
      cases h
    · exact fun h => absurd h (hno inode)

omit [DecidableEq Name] in
theorem read_eq (v : View Name β) (path : List Name) :
    v.read path = (v.fileAt path).map v.bytes := by
  unfold read fileAt
  cases v.entry path with
  | none => rfl
  | some e => cases e <;> rfl

omit [DecidableEq Name] in
theorem fileAt_congr (h : v'.entry path = v.entry path) : v'.fileAt path = v.fileAt path := by
  unfold fileAt
  rw [h]

omit [DecidableEq Name] in
theorem fileAt_of_entry {e : Option Entry} (h : v.entry path = e)
    (he : ∀ inode, e ≠ some (.file inode)) : v.fileAt path = none := by
  cases hfile : v.fileAt path with
  | none => rfl
  | some inode => exact absurd (h.symm.trans (fileAt_eq_some.mp hfile)) (he inode)

end View

namespace Store

variable {s : Store Name β} {path dir : List Name} {name : Name}

theorem entry_dir_changeDirectory (s : Store Name β) (dir : List Name) (c : Change Name) :
    (s.changeDirectory dir c).now.entry dir = s.now.entry dir := by
  apply View.entry_congr
  intro n d hsuffix
  change ((s.changeDirectory dir c).directory d).current n = (s.directory d).current n
  rw [directory_changeDirectory (ne_of_suffix hsuffix)]

theorem entry_changeDirectory_self {c : Change Name} (hdir : s.now.entry dir = some .directory) :
    (s.changeDirectory dir c).now.entry (name :: dir) =
      c.apply (s.directory dir).current name := by
  rw [View.entry_cons ((entry_dir_changeDirectory s dir c).trans hdir)]
  change ((s.changeDirectory dir c).directory dir).current name = _
  rw [directory_changeDirectory_self, Directory.current_change]

/-- Entries that come and go in a directory, and are no directories, leave all others. -/
theorem entry_changeDirectory_of_ne {c : Change Name} (hdir : s.now.entry dir = some .directory)
    (hbefore : ∀ e ∈ c, s.now.entry (e.1 :: dir) ≠ some .directory)
    (hafter : ∀ e ∈ c, e.2 ≠ some .directory) (hpath : ∀ e ∈ c, e.1 :: dir ≠ path) :
    (s.changeDirectory dir c).now.entry path = s.now.entry path := by
  apply View.entry_unchanged (fun q => ∃ e ∈ c, e.1 :: dir = q)
  · intro n d hn _
    change ((s.changeDirectory dir c).directory d).current n = (s.directory d).current n
    by_cases hd : d = dir
    · subst hd
      rw [directory_changeDirectory_self, Directory.current_change]
      apply Change.apply_of_forall_ne
      intro e he heq
      exact hn ⟨e, he, by rw [heq]⟩
    · rw [directory_changeDirectory hd]
  · rintro q ⟨e, he, rfl⟩ n
    refine ⟨View.entry_cons_of_ne (hbefore e he), View.entry_cons_of_ne ?_⟩
    rw [entry_changeDirectory_self hdir]
    obtain ⟨e', he', -, happly⟩ := Change.apply_of_mem he (s.directory dir).current
    rw [happly]
    exact hafter e' he'
  · rintro ⟨e, he, heq⟩
    exact hpath e he heq

/-- A new directory has nothing in it. -/
theorem entry_makeDirectory_of_ne (habsent : (s.directory dir).current name = none)
    (hpath : name :: dir ≠ path) :
    (s.makeDirectory (name :: dir)).now.entry path = s.now.entry path := by
  apply View.entry_unchanged ((· = name :: dir))
  · intro n d hn hd
    change ((s.makeDirectory (name :: dir)).directory d).current n = (s.directory d).current n
    rw [directory_makeDirectory hd]
    by_cases heq : d = dir
    · subst heq
      rw [directory_changeDirectory_self, Directory.current_change, Change.apply_single,
        Function.update_of_ne]
      rintro rfl
      exact hn rfl
    · rw [directory_changeDirectory heq]
  · rintro q rfl n
    constructor
    · apply View.entry_cons_of_ne
      by_cases hdir : s.now.entry dir = some .directory
      · rw [View.entry_cons hdir]
        change (s.directory dir).current name ≠ _
        rw [habsent]
        intro h
        cases h
      · rw [View.entry_cons_of_ne hdir]
        intro h
        cases h
    · by_cases hmade : (s.makeDirectory (name :: dir)).now.entry (name :: dir) = some .directory
      · rw [View.entry_cons hmade]
        change ((s.makeDirectory (name :: dir)).directory (name :: dir)).current n = none
        rw [directory_makeDirectory_self]
        rfl
      · exact View.entry_cons_of_ne hmade
  · exact fun h => hpath h.symm

/-- A directory that was made under a directory is there. -/
theorem entry_makeDirectory_self (hdir : s.now.entry dir = some .directory) :
    (s.makeDirectory (name :: dir)).now.entry (name :: dir) = some .directory := by
  have hdir' : (s.makeDirectory (name :: dir)).now.entry dir = some .directory := by
    rw [← hdir]
    apply View.entry_congr
    intro n d hsuffix
    change ((s.makeDirectory (name :: dir)).directory d).current n = (s.directory d).current n
    have hne : d ≠ name :: dir := by
      rintro rfl
      have hlength := hsuffix.length_le
      simp only [List.length_cons] at hlength
      omega
    rw [directory_makeDirectory hne, directory_changeDirectory (ne_of_suffix hsuffix)]
  rw [View.entry_cons hdir']
  change ((s.makeDirectory (name :: dir)).directory dir).current name = _
  rw [directory_makeDirectory (List.cons_ne_self name dir).symm, directory_changeDirectory_self,
    Directory.current_change, Change.apply_single, Function.update_self]

theorem fileAt_makeDirectory (hdir : s.now.entry dir = some .directory)
    (habsent : (s.directory dir).current name = none) (path : List Name) :
    (s.makeDirectory (name :: dir)).now.fileAt path = s.now.fileAt path := by
  by_cases hpath : name :: dir = path
  · subst hpath
    rw [View.fileAt_of_entry (entry_makeDirectory_self hdir) (by intro inode h; cases h),
      View.fileAt_of_entry ((View.entry_cons hdir).trans habsent) (by intro inode h; cases h)]
  · exact View.fileAt_congr (entry_makeDirectory_of_ne habsent hpath)

theorem fileAt_syncDirectory (s : Store Name β) (dir path : List Name) :
    (s.syncDirectory dir).now.fileAt path = s.now.fileAt path := by
  apply View.fileAt_congr
  apply View.entry_congr
  intro n d _
  exact congrFun (current_syncDirectory s dir d) n

theorem fileAt_setFile (s : Store Name β) (inode : ℕ) (data : FileData β) (path : List Name) :
    (s.setFile inode data).now.fileAt path = s.now.fileAt path :=
  View.fileAt_congr (View.entry_congr fun _ _ _ => rfl)

/-- One entry of an existing directory changes, from and to no directory. -/
theorem fileAt_changeDirectory_single (name : Name) (entry : Option Entry)
    (hdir : s.now.entry dir = some .directory)
    (hbefore : s.now.entry (name :: dir) ≠ some .directory) (hafter : entry ≠ some .directory) :
    (s.changeDirectory dir [(name, entry)]).now.fileAt =
      Function.update s.now.fileAt (name :: dir) (entry.bind fun
        | .file inode => some inode
        | .directory => none) := by
  funext path
  by_cases hpath : name :: dir = path
  · subst hpath
    rw [Function.update_self]
    have hentry : (s.changeDirectory dir [(name, entry)]).now.entry (name :: dir) = entry := by
      rw [entry_changeDirectory_self hdir, Change.apply_single, Function.update_self]
    unfold View.fileAt
    rw [hentry]
    cases entry with
    | none => rfl
    | some e => cases e <;> rfl
  · rw [Function.update_of_ne (Ne.symm hpath)]
    apply View.fileAt_congr
    apply entry_changeDirectory_of_ne hdir
    · intro e he
      rw [List.mem_singleton.mp he]
      exact hbefore
    · intro e he
      rw [List.mem_singleton.mp he]
      exact hafter
    · intro e he
      rw [List.mem_singleton.mp he]
      exact hpath

/-- A rename within a directory. -/
theorem fileAt_rename {source target : Name} {inode : ℕ} (hne : source ≠ target)
    (hdir : s.now.entry dir = some .directory)
    (hsource : s.now.entry (source :: dir) ≠ some .directory)
    (htarget : s.now.entry (target :: dir) ≠ some .directory) :
    (s.changeDirectory dir [(source, none), (target, some (.file inode))]).now.fileAt =
      Function.update (Function.update s.now.fileAt (source :: dir) none) (target :: dir)
        (some inode) := by
  have happly (n : Name) :
      Change.apply (s.directory dir).current [(source, none), (target, some (.file inode))] n =
        Function.update (Function.update (s.directory dir).current source none) target
          (some (.file inode)) n := rfl
  funext path
  by_cases hnew : target :: dir = path
  · subst hnew
    rw [Function.update_self]
    apply View.fileAt_eq_some.mpr
    rw [entry_changeDirectory_self hdir, happly, Function.update_self]
  · rw [Function.update_of_ne (Ne.symm hnew)]
    by_cases hold : source :: dir = path
    · subst hold
      rw [Function.update_self]
      have hgone : (s.changeDirectory dir
          [(source, none), (target, some (.file inode))]).now.entry (source :: dir) = none := by
        rw [entry_changeDirectory_self hdir, happly, Function.update_of_ne hne,
          Function.update_self]
      exact View.fileAt_of_entry hgone (by intro i h; cases h)
    · rw [Function.update_of_ne (Ne.symm hold)]
      apply View.fileAt_congr
      apply entry_changeDirectory_of_ne hdir
      · intro e he
        simp only [List.mem_cons, List.not_mem_nil, or_false] at he
        rcases he with rfl | rfl
        · exact hsource
        · exact htarget
      · intro e he
        simp only [List.mem_cons, List.not_mem_nil, or_false] at he
        rcases he with rfl | rfl
        · intro h
          cases h
        · intro h
          cases h
      · intro e he
        simp only [List.mem_cons, List.not_mem_nil, or_false] at he
        rcases he with rfl | rfl
        · exact hold
        · exact hnew

end Store

end DurableStore
