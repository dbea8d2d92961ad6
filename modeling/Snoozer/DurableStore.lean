import Mathlib.Data.List.Infix
import Mathlib.Data.Nat.Notation
import Mathlib.Logic.Function.Basic
import Mathlib.Tactic.Common

/-! Directories and files that survive a crash for certain only once they have been
synchronised. A directory keeps the changes made since its last synchronisation, and a crash
leaves it with any of them; a file that has not been synchronised may hold anything. Paths list
their components from the last one to the first, and nothing here is about a particular program. -/
namespace DurableStore

inductive Entry where
  | directory
  | file (inode : ℕ)
  deriving DecidableEq, Repr

abbrev Listing (Name : Type) := Name → Option Entry

/-- Entries that change at once. -/
abbrev Change (Name : Type) := List (Name × Option Entry)

variable {Name β : Type} [DecidableEq Name]

def Change.apply (listing : Listing Name) (c : Change Name) : Listing Name :=
  c.foldl (fun l e => Function.update l e.1 e.2) listing

theorem Change.apply_of_forall_ne {c : Change Name} {name : Name} (h : ∀ e ∈ c, e.1 ≠ name)
    (listing : Listing Name) : c.apply listing name = listing name := by
  induction c generalizing listing with
  | nil => rfl
  | cons e c ih =>
    have hrest := ih (fun e' he' => h e' (List.mem_cons_of_mem _ he'))
      (Function.update listing e.1 e.2)
    exact hrest.trans (Function.update_of_ne (h e List.mem_cons_self).symm _ _)

theorem Change.apply_single (listing : Listing Name) (name : Name) (entry : Option Entry) :
    Change.apply listing [(name, entry)] = Function.update listing name entry := rfl

structure Directory (Name : Type) where
  durable : Listing Name
  pending : List (Change Name)

namespace Directory

variable {d : Directory Name} {c : Change Name} {listing : Listing Name}

def after (d : Directory Name) (kept : List (Change Name)) : Listing Name :=
  kept.foldl Change.apply d.durable

def current (d : Directory Name) : Listing Name := d.after d.pending

def change (d : Directory Name) (c : Change Name) : Directory Name :=
  { d with pending := d.pending ++ [c] }

def sync (d : Directory Name) : Directory Name := ⟨d.current, []⟩

def empty : Directory Name := ⟨fun _ => none, []⟩

/-- The listings that a crash may leave. -/
def Image (d : Directory Name) (listing : Listing Name) : Prop :=
  ∃ kept, kept.Sublist d.pending ∧ listing = d.after kept

theorem image_current (d : Directory Name) : d.Image d.current :=
  ⟨d.pending, List.Sublist.refl _, rfl⟩

@[simp] theorem current_change (d : Directory Name) (c : Change Name) :
    (d.change c).current = c.apply d.current := by
  simp only [current, change, after, List.foldl_append, List.foldl_cons, List.foldl_nil]

@[simp] theorem current_sync (d : Directory Name) : d.sync.current = d.current := rfl

/-- The last change survives or it does not. -/
theorem image_change : (d.change c).Image listing ↔
    d.Image listing ∨ ∃ l, d.Image l ∧ listing = c.apply l := by
  constructor
  · rintro ⟨kept, hkept, rfl⟩
    obtain ⟨before, last, rfl, hbefore, hlast⟩ := List.sublist_append_iff.mp hkept
    rcases List.sublist_singleton.mp hlast with rfl | rfl
    · refine Or.inl ⟨before, hbefore, ?_⟩
      rw [List.append_nil]
      rfl
    · refine Or.inr ⟨d.after before, ⟨before, hbefore, rfl⟩, ?_⟩
      simp only [after, change, List.foldl_append, List.foldl_cons, List.foldl_nil]
  · rintro (⟨kept, hkept, rfl⟩ | ⟨l, ⟨kept, hkept, rfl⟩, rfl⟩)
    · exact ⟨kept, hkept.trans (List.sublist_append_left _ _), rfl⟩
    · refine ⟨kept ++ [c], hkept.append (List.Sublist.refl _), ?_⟩
      simp only [after, change, List.foldl_append, List.foldl_cons, List.foldl_nil]

/-- An entry that no change mentions comes up in no listing. -/
theorem Image.ne {e : Entry} (hdurable : ∀ n, d.durable n ≠ some e)
    (hpending : ∀ c ∈ d.pending, ∀ x ∈ c, x.2 ≠ some e) (h : d.Image listing) (name : Name) :
    listing name ≠ some e := by
  have happly : ∀ (c : Change Name) (l : Listing Name), (∀ x ∈ c, x.2 ≠ some e) →
      (∀ n, l n ≠ some e) → ∀ n, c.apply l n ≠ some e := by
    intro c
    induction c with
    | nil => exact fun l _ hl => hl
    | cons x c ih =>
      intro l hc hl
      apply ih _ fun y hy => hc y (List.mem_cons_of_mem _ hy)
      intro n
      dsimp only
      by_cases hn : n = x.1
      · subst hn
        rw [Function.update_self]
        exact hc x List.mem_cons_self
      · rw [Function.update_of_ne hn]
        exact hl n
  obtain ⟨kept, hkept, rfl⟩ := h
  have hmem : ∀ c ∈ kept, ∀ x ∈ c, x.2 ≠ some e := fun c hc => hpending c (hkept.subset hc)
  clear hkept hpending
  unfold after
  generalize d.durable = l at hdurable ⊢
  induction kept generalizing l with
  | nil => exact hdurable name
  | cons c kept ih =>
    exact ih (fun c' hc' => hmem c' (List.mem_cons_of_mem _ hc')) (c.apply l)
      (happly c l (hmem c List.mem_cons_self) hdurable)

theorem image_of_settled (h : d.pending = []) : d.Image listing ↔ listing = d.current := by
  constructor
  · rintro ⟨kept, hkept, rfl⟩
    rw [h] at hkept
    rw [List.sublist_nil.mp hkept, current, h]
  · rintro rfl
    exact d.image_current

end Directory

structure FileData (β : Type) where
  bytes : List β
  synced : Bool

/-- What can be seen of a store: the listing of every directory and the bytes of every file. -/
structure View (Name β : Type) where
  listing : List Name → Listing Name
  bytes : ℕ → List β

namespace View

variable {v v' : View Name β}

/-- The entry at a path, as long as all before it are directories. -/
def entry (v : View Name β) : List Name → Option Entry
  | [] => some .directory
  | name :: dir => match v.entry dir with
    | some .directory => v.listing dir name
    | _ => none

def read (v : View Name β) (path : List Name) : Option (List β) :=
  match v.entry path with
  | some (.file inode) => some (v.bytes inode)
  | _ => none

omit [DecidableEq Name] in
theorem entry_cons {name : Name} {dir : List Name} (h : v.entry dir = some .directory) :
    v.entry (name :: dir) = v.listing dir name := by
  simp only [entry, h]

omit [DecidableEq Name] in
theorem entry_cons_of_ne {name : Name} {dir : List Name} (h : v.entry dir ≠ some .directory) :
    v.entry (name :: dir) = none := by
  unfold entry
  split
  · next hdir => exact absurd hdir h
  · rfl

omit [DecidableEq Name] in
theorem entry_congr {path : List Name}
    (h : ∀ name dir, (name :: dir) <:+ path → v.listing dir name = v'.listing dir name) :
    v.entry path = v'.entry path := by
  induction path with
  | nil => rfl
  | cons name dir ih =>
    have hdir := ih fun n d hn => h n d (hn.trans (List.suffix_cons name dir))
    simp only [entry, hdir, h name dir (List.suffix_refl _)]

omit [DecidableEq Name] in
/-- A directory is one when it is listed all the way from the root. -/
theorem entry_directory_iff {dir : List Name} : v.entry dir = some .directory ↔
    ∀ name d, (name :: d) <:+ dir → v.listing d name = some .directory := by
  induction dir with
  | nil =>
    constructor
    · intro _ name d h
      exact absurd (List.suffix_nil.mp h) (List.cons_ne_nil _ _)
    · exact fun _ => rfl
  | cons n dir ih =>
    constructor
    · intro h name d hsuffix
      by_cases hdir : v.entry dir = some .directory
      · rcases List.suffix_cons_iff.mp hsuffix with heq | hsuffix
        · cases heq
          rw [← entry_cons hdir]
          exact h
        · exact ih.mp hdir name d hsuffix
      · rw [entry_cons_of_ne hdir] at h
        cases h
    · intro h
      have hdir := ih.mpr fun name d hd => h name d (hd.trans (List.suffix_cons n dir))
      rw [entry_cons hdir]
      exact h n dir (List.suffix_refl _)

omit [DecidableEq Name] in
theorem read_of_entry {path : List Name} {inode : ℕ} (h : v.entry path = some (.file inode)) :
    v.read path = some (v.bytes inode) := by
  simp only [read, h]

omit [DecidableEq Name] in
theorem read_of_entry_directory {path : List Name} (h : v.entry path = some .directory) :
    v.read path = none := by
  simp only [read, h]

omit [DecidableEq Name] in
theorem read_of_entry_none {path : List Name} (h : v.entry path = none) : v.read path = none := by
  simp only [read, h]

omit [DecidableEq Name] in
/-- Nothing lies below a path that has no entries. -/
theorem read_below {dir path : List Name} (h : ∀ name, v.entry (name :: dir) = none)
    (hsuffix : dir <:+ path) (hne : dir ≠ path) : v.read path = none := by
  apply read_of_entry_none
  induction path with
  | nil => exact absurd (List.suffix_nil.mp hsuffix) hne
  | cons name rest ih =>
    rcases List.suffix_cons_iff.mp hsuffix with heq | hrest
    · exact absurd heq hne
    · by_cases heq : dir = rest
      · rw [← heq]
        exact h name
      · apply entry_cons_of_ne
        rw [ih hrest heq]
        exact nofun

omit [DecidableEq Name] in
/-- A path that leads to no file in either view, or to the same one with the same bytes. -/
theorem read_congr {path : List Name} (h : v.entry path = v'.entry path)
    (hbytes : ∀ inode, v'.entry path = some (.file inode) → v.bytes inode = v'.bytes inode) :
    v.read path = v'.read path := by
  unfold read
  rw [h]
  split
  · next inode hentry => rw [hbytes inode hentry]
  · rfl

end View

structure Store (Name β : Type) where
  directory : List Name → Directory Name
  file : ℕ → FileData β

namespace Store

variable {s t u : Store Name β} {path dir : List Name} {name : Name}

def now (s : Store Name β) : View Name β :=
  ⟨fun p => (s.directory p).current, fun i => (s.file i).bytes⟩

/-- The views that a crash may leave. -/
def Crash (s : Store Name β) (v : View Name β) : Prop :=
  (∀ p, (s.directory p).Image (v.listing p)) ∧
    ∀ i, (s.file i).synced = true → v.bytes i = (s.file i).bytes

theorem crash_now (s : Store Name β) : s.Crash s.now :=
  ⟨fun p => (s.directory p).image_current, fun _ _ => rfl⟩

/-- After any crash the path holds the bytes. -/
def Durable (s : Store Name β) (path : List Name) (bytes : List β) : Prop :=
  ∀ v, s.Crash v → v.read path = some bytes

/-- Every crash leaves all entries on the way to the directory. -/
def Settled (s : Store Name β) (dir : List Name) : Prop :=
  ∀ name d, (name :: d) <:+ dir → ∀ l, (s.directory d).Image l → l name = some .directory

def changeDirectory (s : Store Name β) (dir : List Name) (c : Change Name) : Store Name β :=
  { s with directory := Function.update s.directory dir ((s.directory dir).change c) }

def makeDirectory (s : Store Name β) (path : List Name) : Store Name β :=
  match path with
  | [] => s
  | name :: dir =>
    { s.changeDirectory dir [(name, some .directory)] with
      directory := Function.update (s.changeDirectory dir [(name, some .directory)]).directory
        (name :: dir) .empty }

def syncDirectory (s : Store Name β) (dir : List Name) : Store Name β :=
  { s with directory := Function.update s.directory dir (s.directory dir).sync }

def setFile (s : Store Name β) (inode : ℕ) (data : FileData β) : Store Name β :=
  { s with file := Function.update s.file inode data }

def syncFile (s : Store Name β) (inode : ℕ) : Store Name β :=
  s.setFile inode ⟨(s.file inode).bytes, true⟩

/-- No crash leaves an entry that leads to the file. -/
def Unlinked (s : Store Name β) (inode : ℕ) : Prop :=
  ∀ p l, (s.directory p).Image l → ∀ name, l name ≠ some (.file inode)

/-- Whatever a crash of `t` leaves at the path, a crash of `s` may leave as well. -/
def Shadows (path : List Name) (s t : Store Name β) : Prop :=
  ∀ v, t.Crash v → ∃ v', s.Crash v' ∧ v'.read path = v.read path

theorem Shadows.refl (path : List Name) (s : Store Name β) : Shadows path s s :=
  fun v hv => ⟨v, hv, rfl⟩

theorem Shadows.trans (h : Shadows path s t) (h' : Shadows path t u) : Shadows path s u := by
  intro v hv
  obtain ⟨v', hv', hread'⟩ := h' v hv
  obtain ⟨v'', hv'', hread⟩ := h v' hv'
  exact ⟨v'', hv'', hread.trans hread'⟩

theorem Crash.replace {v : View Name β} {d : List Name} {l : Listing Name}
    (hdirectory : ∀ p, p ≠ d → (s.directory p).Image (v.listing p)) (hl : (s.directory d).Image l)
    (hfile : ∀ i, (s.file i).synced = true → v.bytes i = (s.file i).bytes) :
    s.Crash ⟨Function.update v.listing d l, v.bytes⟩ := by
  refine ⟨fun p => ?_, hfile⟩
  dsimp only
  by_cases hp : p = d
  · subst hp
    rwa [Function.update_self]
  · rw [Function.update_of_ne hp]
    exact hdirectory p hp

theorem directory_changeDirectory_self (s : Store Name β) (dir : List Name) (c : Change Name) :
    (s.changeDirectory dir c).directory dir = (s.directory dir).change c :=
  Function.update_self ..

theorem directory_changeDirectory {p : List Name} (h : p ≠ dir) (c : Change Name) :
    (s.changeDirectory dir c).directory p = s.directory p :=
  Function.update_of_ne h ..

theorem directory_makeDirectory_self (s : Store Name β) (name : Name) (dir : List Name) :
    (s.makeDirectory (name :: dir)).directory (name :: dir) = .empty :=
  Function.update_self ..

theorem directory_makeDirectory {p : List Name} (h : p ≠ name :: dir) :
    (s.makeDirectory (name :: dir)).directory p =
      (s.changeDirectory dir [(name, some .directory)]).directory p :=
  Function.update_of_ne h ..

theorem directory_syncDirectory_self (s : Store Name β) (dir : List Name) :
    (s.syncDirectory dir).directory dir = (s.directory dir).sync :=
  Function.update_self ..

theorem current_syncDirectory (s : Store Name β) (dir p : List Name) :
    ((s.syncDirectory dir).directory p).current = (s.directory p).current := by
  unfold syncDirectory
  dsimp only
  by_cases hp : p = dir
  · subst hp
    rw [Function.update_self, Directory.current_sync]
  · rw [Function.update_of_ne hp]

/-- A change of entries that are not on the way. -/
theorem shadows_changeDirectory {c : Change Name} (h : ∀ e ∈ c, ¬ (e.1 :: dir) <:+ path) :
    Shadows path s (s.changeDirectory dir c) := by
  intro v hv
  have hothers : ∀ p, p ≠ dir → (s.directory p).Image (v.listing p) := by
    intro p hp
    rw [← directory_changeDirectory hp c]
    exact hv.1 p
  have hdir := hv.1 dir
  rw [directory_changeDirectory_self] at hdir
  rcases Directory.image_change.mp hdir with himage | ⟨l, himage, hl⟩
  · refine ⟨v, ⟨fun p => ?_, hv.2⟩, rfl⟩
    by_cases hp : p = dir
    · rw [hp]
      exact himage
    · exact hothers p hp
  · refine ⟨_, Crash.replace hothers himage hv.2, ?_⟩
    refine View.read_congr (View.entry_congr ?_) fun _ _ => rfl
    intro n d hsuffix
    dsimp only
    by_cases hd : d = dir
    · subst hd
      rw [Function.update_self, hl]
      exact (Change.apply_of_forall_ne (fun e he hn => h e he (hn ▸ hsuffix)) l).symm
    · rw [Function.update_of_ne hd]

/-- A new directory is empty, and nothing was below it before. -/
theorem now_read_makeDirectory (habsent : (s.directory dir).current name = none)
    (path : List Name) : (s.makeDirectory (name :: dir)).now.read path = s.now.read path := by
  by_cases hsuffix : (name :: dir) <:+ path
  · have hentry : s.now.entry (name :: dir) = none := by
      by_cases hdir : s.now.entry dir = some .directory
      · rw [View.entry_cons hdir]
        exact habsent
      · exact View.entry_cons_of_ne hdir
    have hbelow : ∀ n, (s.makeDirectory (name :: dir)).now.entry (n :: name :: dir) = none := by
      intro n
      by_cases hmade : (s.makeDirectory (name :: dir)).now.entry (name :: dir) = some .directory
      · rw [View.entry_cons hmade]
        change ((s.makeDirectory (name :: dir)).directory (name :: dir)).current n = none
        rw [directory_makeDirectory_self]
        rfl
      · exact View.entry_cons_of_ne hmade
    by_cases heq : name :: dir = path
    · subst heq
      rw [View.read_of_entry_none hentry]
      by_cases hdir : (s.makeDirectory (name :: dir)).now.entry dir = some .directory
      · apply View.read_of_entry_directory
        rw [View.entry_cons hdir]
        change ((s.makeDirectory (name :: dir)).directory dir).current name = _
        rw [directory_makeDirectory (List.cons_ne_self name dir).symm,
          directory_changeDirectory_self, Directory.current_change, Change.apply_single,
          Function.update_self]
      · exact View.read_of_entry_none (View.entry_cons_of_ne hdir)
    · rw [View.read_below hbelow hsuffix heq]
      symm
      apply View.read_below _ hsuffix heq
      intro n
      apply View.entry_cons_of_ne
      rw [hentry]
      exact nofun
  · -- The path does not pass through the new directory.
    refine View.read_congr (View.entry_congr ?_) fun _ _ => rfl
    intro n d hn
    change ((s.makeDirectory (name :: dir)).directory d).current n = (s.directory d).current n
    have hd : d ≠ name :: dir := by
      rintro rfl
      exact hsuffix ((List.suffix_cons n _).trans hn)
    rw [directory_makeDirectory hd]
    by_cases hdir : d = dir
    · subst hdir
      rw [directory_changeDirectory_self, Directory.current_change, Change.apply_single,
        Function.update_of_ne]
      rintro rfl
      exact hsuffix hn
    · rw [directory_changeDirectory hdir]

/-- A new directory on the way is empty, and a crash without it leaves nothing either. -/
theorem shadows_makeDirectory (habsent : (s.directory dir).current name = none) :
    Shadows path s (s.makeDirectory (name :: dir)) := by
  intro v hv
  have hne : dir ≠ name :: dir := (List.cons_ne_self name dir).symm
  have hothers : ∀ p, p ≠ dir → p ≠ name :: dir → (s.directory p).Image (v.listing p) := by
    intro p hp hp'
    rw [← directory_changeDirectory hp [(name, some .directory)], ← directory_makeDirectory hp']
    exact hv.1 p
  have hdir := hv.1 dir
  rw [directory_makeDirectory hne, directory_changeDirectory_self] at hdir
  have hnew := hv.1 (name :: dir)
  rw [directory_makeDirectory_self] at hnew
  have hnone : ∀ n, v.listing (name :: dir) n = none := by
    rw [(Directory.image_of_settled rfl).mp hnew]
    exact fun _ => rfl
  -- The view without the new directory; nothing depends on what the old one held.
  have hwithout : ∀ l, (s.directory dir).Image l → s.Crash ⟨Function.update
      (Function.update v.listing dir l) (name :: dir) (s.directory (name :: dir)).current,
        v.bytes⟩ := by
    intro l hl
    refine Crash.replace (v := ⟨Function.update v.listing dir l, v.bytes⟩) ?_
      (Directory.image_current _) hv.2
    intro p hp'
    dsimp only
    by_cases hp : p = dir
    · subst hp
      rwa [Function.update_self]
    · rw [Function.update_of_ne hp]
      exact hothers p hp hp'
  have hsame : ∀ l : Listing Name, (∀ n, (n :: dir) <:+ path → l n = v.listing dir n) →
      ∀ p, p <:+ path → ¬ (name :: dir) <:+ p.tail → View.entry ⟨Function.update
        (Function.update v.listing dir l) (name :: dir) (s.directory (name :: dir)).current,
          v.bytes⟩ p = v.entry p := by
    intro l hl p hp hbelow
    apply View.entry_congr
    intro n d hsuffix
    have hd : d ≠ name :: dir := by
      rintro rfl
      apply hbelow
      obtain ⟨above, rfl⟩ := hsuffix
      cases above with
      | nil => exact List.suffix_refl _
      | cons m above => exact (List.suffix_cons n _).trans (List.suffix_append above _)
    dsimp only
    rw [Function.update_of_ne hd]
    by_cases hdir' : d = dir
    · subst hdir'
      rw [Function.update_self]
      exact hl n (hsuffix.trans hp)
    · rw [Function.update_of_ne hdir']
  have htail : ∀ p : List Name, (name :: dir) <:+ p.tail → (name :: dir) <:+ p :=
    fun p h => h.trans (List.tail_suffix p)
  by_cases hsuffix : (name :: dir) <:+ path
  · have hat : ¬ (name :: dir) <:+ (name :: dir).tail := by
      intro h
      have hlength := h.length_le
      rw [List.tail_cons, List.length_cons] at hlength
      omega
    have hread : ∀ u : View Name β, (∀ n, u.entry (n :: name :: dir) = none) →
        (∀ i, u.entry (name :: dir) ≠ some (.file i)) → u.read path = none := by
      intro u hbelow hfile
      by_cases hpath : name :: dir = path
      · rw [← hpath]
        unfold View.read
        split
        · next i hi => exact absurd hi (hfile i)
        · rfl
      · exact View.read_below hbelow hsuffix hpath
    by_cases hentry : v.listing dir name = some .directory
    · refine ⟨s.now, s.crash_now, ?_⟩
      have hnow : s.now.entry (name :: dir) = none := by
        by_cases hd : s.now.entry dir = some .directory
        · rw [View.entry_cons hd]
          exact habsent
        · exact View.entry_cons_of_ne hd
      have hleft : s.now.read path = none := by
        apply hread
        · exact fun n => View.entry_cons_of_ne (by rw [hnow]; exact nofun)
        · rw [hnow]
          exact nofun
      have hright : v.read path = none := by
        apply hread
        · intro n
          by_cases hd : v.entry (name :: dir) = some .directory
          · rw [View.entry_cons hd, hnone]
          · exact View.entry_cons_of_ne hd
        · intro i
          by_cases hd : v.entry dir = some .directory
          · rw [View.entry_cons hd, hentry]
            exact nofun
          · rw [View.entry_cons_of_ne hd]
            exact nofun
      rw [hleft, hright]
    · have himage : (s.directory dir).Image (v.listing dir) := by
        rcases Directory.image_change.mp hdir with himage | ⟨l, -, hl⟩
        · exact himage
        · rw [hl, Change.apply_single, Function.update_self] at hentry
          exact absurd rfl hentry
      refine ⟨_, hwithout _ himage, ?_⟩
      have heq := hsame (v.listing dir) (fun _ _ => rfl) (name :: dir) hsuffix hat
      by_cases hpath : name :: dir = path
      · rw [← hpath]
        exact View.read_congr heq fun _ _ => rfl
      · have hd : v.entry (name :: dir) ≠ some .directory := by
          by_cases hd : v.entry dir = some .directory
          · rw [View.entry_cons hd]
            exact hentry
          · rw [View.entry_cons_of_ne hd]
            exact nofun
        rw [View.read_below (fun _ => View.entry_cons_of_ne hd) hsuffix hpath]
        apply View.read_below _ hsuffix hpath
        intro n
        apply View.entry_cons_of_ne
        rw [heq]
        exact hd
  · obtain ⟨l, himage, hl⟩ : ∃ l, (s.directory dir).Image l ∧
        ∀ n, (n :: dir) <:+ path → l n = v.listing dir n := by
      rcases Directory.image_change.mp hdir with himage | ⟨l, himage, hl⟩
      · exact ⟨_, himage, fun _ _ => rfl⟩
      · refine ⟨l, himage, fun n hn => ?_⟩
        rw [hl, Change.apply_single, Function.update_of_ne]
        rintro rfl
        exact hsuffix hn
    refine ⟨_, hwithout l himage, ?_⟩
    exact View.read_congr (hsame l hl path (List.suffix_refl _) fun h => hsuffix (htail path h))
      fun _ _ => rfl

/-- A file that the path leads to in no crash may hold anything. -/
theorem shadows_setFile {inode : ℕ} (data : FileData β)
    (h : ∀ name d, path = name :: d → ∀ l, (s.directory d).Image l → l name ≠ some (.file inode)) :
    Shadows path s (s.setFile inode data) := by
  intro v hv
  refine ⟨⟨v.listing, Function.update v.bytes inode (s.file inode).bytes⟩, ⟨hv.1, ?_⟩, ?_⟩
  · intro i hi
    dsimp only
    by_cases heq : i = inode
    · rw [heq, Function.update_self]
    · rw [Function.update_of_ne heq]
      have hbytes := hv.2 i
      simp only [setFile, Function.update_of_ne heq] at hbytes
      exact hbytes hi
  · refine View.read_congr (View.entry_congr fun _ _ _ => rfl) ?_
    intro i hi
    apply Function.update_of_ne
    rintro rfl
    cases path with
    | nil => exact nomatch hi
    | cons name d =>
      by_cases hd : v.entry d = some .directory
      · rw [View.entry_cons hd] at hi
        exact h name d rfl _ (hv.1 d) hi
      · rw [View.entry_cons_of_ne hd] at hi
        cases hi

/-- Syncing any directory leaves a path shadowed. -/
theorem shadows_syncDirectory (path : List Name) (s : Store Name β) (dir : List Name) :
    Shadows path s (s.syncDirectory dir) := by
  intro v hv
  refine ⟨v, ⟨fun p => ?_, hv.2⟩, rfl⟩
  have himage := hv.1 p
  by_cases heq : p = dir
  · subst heq
    simp only [syncDirectory, Function.update_self] at himage
    rw [(Directory.image_of_settled rfl).mp himage]
    exact (s.directory p).image_current
  · simp only [syncDirectory, Function.update_of_ne heq] at himage
    exact himage

/-- Whatever a crash of `t` leaves at the path: the new bytes, or what a crash of `s` may leave. -/
def Replaces (path : List Name) (bytes : List β) (s t : Store Name β) : Prop :=
  ∀ v, t.Crash v → v.read path = some bytes ∨ ∃ v', s.Crash v' ∧ v'.read path = v.read path

theorem Shadows.replaces (h : Shadows path s t) (bytes : List β) : Replaces path bytes s t :=
  fun v hv => Or.inr (h v hv)

theorem Shadows.replaces_trans {bytes : List β} (h : Shadows path s t)
    (h' : Replaces path bytes t u) : Replaces path bytes s u := by
  intro v hv
  rcases h' v hv with hnew | ⟨v', hv', hread'⟩
  · exact Or.inl hnew
  · obtain ⟨v'', hv'', hread⟩ := h v' hv'
    exact Or.inr ⟨v'', hv'', hread.trans hread'⟩

theorem Replaces.shadows_trans {bytes : List β} (h : Replaces path bytes s t)
    (h' : Shadows path t u) : Replaces path bytes s u := by
  intro v hv
  obtain ⟨v', hv', hread'⟩ := h' v hv
  rw [← hread']
  exact h v' hv'

/-- A file whose bytes are synchronised takes the place of the old one in a single change. -/
theorem replaces_changeDirectory {c : Change Name} {inode : ℕ} {bytes : List β}
    (hc : ∀ l, c.apply l name = some (.file inode)) (hfile : s.file inode = ⟨bytes, true⟩) :
    Replaces (name :: dir) bytes s (s.changeDirectory dir c) := by
  intro v hv
  have hothers : ∀ p, p ≠ dir → (s.directory p).Image (v.listing p) := by
    intro p hp
    rw [← directory_changeDirectory hp c]
    exact hv.1 p
  have hdir := hv.1 dir
  rw [directory_changeDirectory_self] at hdir
  rcases Directory.image_change.mp hdir with himage | ⟨l, himage, hl⟩
  · refine Or.inr ⟨v, ⟨fun p => ?_, hv.2⟩, rfl⟩
    by_cases hp : p = dir
    · rw [hp]
      exact himage
    · exact hothers p hp
  by_cases hd : v.entry dir = some .directory
  · left
    have hentry : v.entry (name :: dir) = some (.file inode) := by
      rw [View.entry_cons hd, hl, hc]
    have hbytes : v.bytes inode = (s.file inode).bytes := hv.2 inode (by
      change (s.file inode).synced = true
      rw [hfile])
    rw [View.read_of_entry hentry, hbytes, hfile]
  · right
    refine ⟨_, Crash.replace hothers himage hv.2, ?_⟩
    rw [View.read_of_entry_none (View.entry_cons_of_ne hd)]
    apply View.read_of_entry_none
    apply View.entry_cons_of_ne
    have hsame : View.entry ⟨Function.update v.listing dir l, v.bytes⟩ dir = v.entry dir := by
      apply View.entry_congr
      intro n d hsuffix
      apply congrFun
      apply Function.update_of_ne
      rintro rfl
      have hlength := hsuffix.length_le
      rw [List.length_cons] at hlength
      omega
    rw [hsame]
    exact hd

theorem settled_congr (h : ∀ name d, (name :: d) <:+ dir → t.directory d = s.directory d) :
    t.Settled dir ↔ s.Settled dir := by
  constructor
  · intro ht name d hsuffix l hl
    exact ht name d hsuffix l (by rwa [h name d hsuffix])
  · intro hs name d hsuffix l hl
    exact hs name d hsuffix l (by rwa [← h name d hsuffix])

omit [DecidableEq Name] in
theorem ne_of_suffix {name : Name} {d dir : List Name} (h : (name :: d) <:+ dir) : d ≠ dir := by
  rintro rfl
  have hlength := h.length_le
  rw [List.length_cons] at hlength
  omega

theorem settled_changeDirectory (s : Store Name β) (dir : List Name) (c : Change Name) :
    (s.changeDirectory dir c).Settled dir ↔ s.Settled dir :=
  settled_congr fun _ _ hsuffix => directory_changeDirectory (ne_of_suffix hsuffix) c

theorem settled_syncDirectory (s : Store Name β) (dir : List Name) :
    (s.syncDirectory dir).Settled dir ↔ s.Settled dir :=
  settled_congr fun _ _ hsuffix => Function.update_of_ne (ne_of_suffix hsuffix) ..

/-- A directory that was missing on the way stays unsettled when it is made. -/
theorem settled_makeDirectory {d : List Name} (hsuffix : (name :: d) <:+ dir)
    (habsent : (s.directory d).current name = none) :
    (s.makeDirectory (name :: d)).Settled dir ↔ s.Settled dir := by
  have hs : ¬ s.Settled dir := by
    intro h
    have hentry := h name d hsuffix _ (s.directory d).image_current
    rw [habsent] at hentry
    cases hentry
  have ht : ¬ (s.makeDirectory (name :: d)).Settled dir := by
    intro h
    have himage : ((s.makeDirectory (name :: d)).directory d).Image (s.directory d).current := by
      rw [directory_makeDirectory (List.cons_ne_self name d).symm, directory_changeDirectory_self]
      exact Directory.image_change.mpr (Or.inl (s.directory d).image_current)
    have hentry := h name d hsuffix _ himage
    rw [habsent] at hentry
    cases hentry
  exact ⟨fun h => absurd h ht, fun h => absurd h hs⟩

/-- A synchronised file in a synchronised directory is as durable as the way to it. -/
theorem durable_iff_settled {inode : ℕ} {bytes : List β}
    (hdir : (s.directory dir).pending = [])
    (hentry : (s.directory dir).current name = some (.file inode))
    (hfile : s.file inode = ⟨bytes, true⟩) : s.Durable (name :: dir) bytes ↔ s.Settled dir := by
  constructor
  · intro hdurable n d hsuffix l hl
    have hcrash : s.Crash ⟨Function.update s.now.listing d l, s.now.bytes⟩ :=
      Crash.replace (v := s.now) (fun p _ => (s.directory p).image_current) hl fun _ _ => rfl
    have hread := hdurable _ hcrash
    by_cases hd : View.entry ⟨Function.update s.now.listing d l, s.now.bytes⟩ dir = some .directory
    · have hlisting := View.entry_directory_iff.mp hd n d hsuffix
      dsimp only at hlisting
      rwa [Function.update_self] at hlisting
    · rw [View.read_of_entry_none (View.entry_cons_of_ne hd)] at hread
      cases hread
  · intro hsettled v hv
    have hd : v.entry dir = some .directory := by
      apply View.entry_directory_iff.mpr
      exact fun n d hsuffix => hsettled n d hsuffix _ (hv.1 d)
    have hlisting := (Directory.image_of_settled hdir).mp (hv.1 dir)
    have hfound : v.entry (name :: dir) = some (.file inode) := by
      rw [View.entry_cons hd, hlisting, hentry]
    rw [View.read_of_entry hfound, hv.2 inode (by rw [hfile]), hfile]

end Store

end DurableStore
