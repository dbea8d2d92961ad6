import Snoozer.CpuIdleInventory

/-! The calls of `restore` in order, whatever they are answered: what justifies each
write, and what follows a value that is neither the original nor the desired one. -/
namespace Snoozer.Benchctl
open Interactive Fallible

abbrev HostEvent := Event HostOp HostAns

abbrev HostTrace := List HostEvent

def readEvent (path : PathBuf) (contents : String) : HostEvent := ⟨.readToString path, .ok contents⟩

/-- The passes of `restore` over the entries. -/
inductive Pass where
  | check | write | verify
  deriving DecidableEq

namespace Pass

/-- The record of `Restoring` ends the first pass, the listing of the second inventory
the second. -/
def after : Pass → HostEvent → Pass
  | check, ⟨.writeJournal _ _, _⟩ => write
  | write, ⟨.readDir _, _⟩ => verify
  | pass, _ => pass

/-- The values that a pass goes on with. -/
def Accepts : Pass → IdleEntry → String → Prop
  | verify, e, v => v = e.original
  | _, e, v => v = e.original ∨ v = e.desired

/-- How a pass names them in its error. -/
def expected : Pass → IdleEntry → String
  | verify, e => e.original
  | _, e => s!"{e.original} or {e.desired}"

/-- The pass after an inventory of at least one CPU. -/
def listed : Pass → Pass
  | write => verify
  | pass => pass

theorem listed_listed (pass : Pass) : pass.listed.listed = pass.listed := by
  cases pass <;> rfl

theorem after_readDir (pass : Pass) {path : PathBuf}
    (x : Except IoError (List (Except IoError String))) :
    pass.after ⟨.readDir path, x⟩ = pass.listed := by
  cases pass <;> rfl

theorem after_symlink (pass : Pass) {path : PathBuf} (x : Except IoError Bool) :
    pass.after ⟨.symlinkMetadata path, x⟩ = pass := by
  cases pass <;> rfl

theorem after_read (pass : Pass) {path : PathBuf} (x : Except IoError String) :
    pass.after ⟨.readToString path, x⟩ = pass := by
  cases pass <;> rfl

end Pass

def passOf (t : HostTrace) : Pass := t.foldl Pass.after .check

def isName (path : PathBuf) : Bool := path.components.getLast? = some "name"

/-- Calls that are followed by a read outside the passes: `validate_inventory` reads a
value after the name of its state, and `write_bit` reads back what it wrote. -/
def announces : HostEvent → Bool
  | ⟨.readToString path, _⟩ => isName path
  | ⟨.write _ _, _⟩ => true
  | _ => false

/-- After `t`, a read of `path` is one of the passes. -/
def OwnRead (t : HostTrace) (path : PathBuf) : Prop :=
  isName path = false ∧ ∀ ev ∈ t.getLast?, announces ev = false

/-- After the calls `t`, a write puts back an original value that differs from the
value just read, and a read of a pass finds a value that the pass goes on with. -/
def Good (entries : List IdleEntry) (t : HostTrace) : HostEvent → Prop
  | ⟨.write path contents, _⟩ => ∃ e ∈ entries, path = e.disablePath ∧
      contents = e.original ++ "\n" ∧ e.desired ≠ e.original ∧
      ∃ t₀ c, t = t₀ ++ [readEvent path c] ∧ trim c = e.desired
  | ⟨.readToString path, .ok c⟩ => OwnRead t path → ∀ e ∈ entries, e.disablePath = path →
      IsBit (trim c) ∧ (passOf t).Accepts e (trim c)
  | _ => True

def Clean (entries : List IdleEntry) (t : HostTrace) : Prop :=
  ∀ t₁ ev t₂, t = t₁ ++ ev :: t₂ → Good entries t₁ ev

/-- The calls that record a conflict. -/
def Recording : HostEvent → Prop
  | ⟨.actor, _⟩ => True
  | ⟨.nowMillis, _⟩ => True
  | ⟨.writeJournal _ _, _⟩ => True
  | _ => False

/-- The first read of a pass that finds a value the pass does not go on with. -/
structure BadRead (entries : List IdleEntry) (t : HostTrace) (e : IdleEntry) (c : String) :
    Prop where
  before : Clean entries t
  entry : e ∈ entries
  own : OwnRead t e.disablePath
  bad : ¬ (IsBit (trim c) ∧ (passOf t).Accepts e (trim c))

/-- Either every call so far is good, or all are up to one bad read. -/
def Shape (entries : List IdleEntry) (t : HostTrace) : Prop :=
  Clean entries t ∨ ∃ t₁ e c t₂, t = t₁ ++ readEvent e.disablePath c :: t₂ ∧
    BadRead entries t₁ e c ∧ ∀ ev ∈ t₂, Recording ev

section Split

variable {α : Type}

theorem snoc_split {t t₁ t₂ : List α} {x a : α} (h : t ++ [x] = t₁ ++ a :: t₂) :
    (t₁ = t ∧ a = x ∧ t₂ = []) ∨ ∃ t₂', t₂ = t₂' ++ [x] ∧ t = t₁ ++ a :: t₂' := by
  rcases List.eq_nil_or_concat t₂ with rfl | ⟨t₂', y, rfl⟩
  · obtain ⟨rfl, hx⟩ := List.append_inj' h rfl
    cases hx
    exact Or.inl ⟨rfl, rfl, rfl⟩
  · have h' : t ++ [x] = (t₁ ++ a :: t₂') ++ [y] := by simpa using h
    obtain ⟨rfl, hx⟩ := List.append_inj' h' rfl
    cases hx
    exact Or.inr ⟨t₂', by simp, rfl⟩

/-- An element of a split list stands in the first part, at the seam or in the second. -/
theorem cons_split {t t₁ t₂ t₃ : List α} {x a : α} (h : t ++ x :: t₃ = t₁ ++ a :: t₂) :
    (∃ t₂', t = t₁ ++ a :: t₂') ∨ (t₁ = t ∧ a = x ∧ t₂ = t₃) ∨ a ∈ t₃ := by
  rcases List.append_eq_append_iff.mp h with ⟨as, rfl, has⟩ | ⟨bs, rfl, hbs⟩
  · cases as with
    | nil =>
      cases has
      exact Or.inr (Or.inl ⟨by simp, rfl, rfl⟩)
    | cons y as =>
      rw [List.cons_append, List.cons.injEq] at has
      exact Or.inr (Or.inr (has.2 ▸ by simp))
  · cases bs with
    | nil =>
      cases hbs
      exact Or.inr (Or.inl ⟨by simp, rfl, rfl⟩)
    | cons y bs =>
      rw [List.cons_append, List.cons.injEq] at hbs
      obtain ⟨rfl, rfl⟩ := hbs
      exact Or.inl ⟨bs, rfl⟩

end Split

variable {entries : List IdleEntry} {t : HostTrace}

theorem clean_nil : Clean entries [] := fun t₁ _ _ h => by simp at h

theorem Clean.snoc (h : Clean entries t) {ev : HostEvent} (hev : Good entries t ev) :
    Clean entries (t ++ [ev]) := by
  intro t₁ x t₂ hsplit
  rcases snoc_split hsplit with ⟨rfl, rfl, rfl⟩ | ⟨t₂', rfl, rfl⟩
  · exact hev
  · exact h t₁ x t₂' rfl

@[simp] theorem passOf_snoc (ev : HostEvent) : passOf (t ++ [ev]) = (passOf t).after ev := by
  simp [passOf]

/-- Every write so far was justified. -/
theorem Shape.write {path : PathBuf} {contents : String} {x : Except IoError Unit}
    {t₁ t₂ : HostTrace} (h : Shape entries t) (ht : t = t₁ ++ ⟨.write path contents, x⟩ :: t₂) :
    Good entries t₁ ⟨.write path contents, x⟩ := by
  rcases h with h | ⟨t₀, e, c, t₃, rfl, hbad, hrecording⟩
  · exact h t₁ _ t₂ ht
  · rcases cons_split ht with ⟨t₂', rfl⟩ | ⟨_, heq, _⟩ | hmem
    · exact hbad.before t₁ _ t₂' rfl
    · exact absurd (congrArg Sigma.fst heq) (by simp [readEvent])
    · exact (hrecording _ hmem).elim

/-- Only the record of the conflict follows a bad read. -/
theorem Shape.bad {e : IdleEntry} {c : String} {t₁ t₂ : HostTrace} (h : Shape entries t)
    (ht : t = t₁ ++ readEvent e.disablePath c :: t₂) (he : e ∈ entries)
    (hown : OwnRead t₁ e.disablePath) (hbad : ¬ (IsBit (trim c) ∧ (passOf t₁).Accepts e (trim c))) :
    ∀ ev ∈ t₂, Recording ev := by
  rcases h with h | ⟨t₀, e', c', t₃, rfl, hbad', hrecording⟩
  · exact absurd (h t₁ _ t₂ ht hown e he rfl) hbad
  · rcases cons_split ht with ⟨t₂', rfl⟩ | ⟨_, _, rfl⟩ | hmem
    · exact absurd (hbad'.before t₁ _ t₂' rfl hown e he rfl) hbad
    · exact hrecording
    · exact (hrecording _ hmem).elim

section Calls

variable {α : Type} {π π' : Pass} {A : α → HostTrace → Prop} {B : BenchError → HostTrace → Prop}

/-- The machine that answers anything and keeps the trace. -/
abbrev Any := traceMachine HostOp HostAns

/-- Nothing bad so far, no read pending outside the passes, and the pass is `π`. -/
structure At (entries : List IdleEntry) (π : Pass) (t : HostTrace) : Prop where
  clean : Clean entries t
  calm : ∀ ev ∈ t.getLast?, announces ev = false
  pass : passOf t = π

theorem At.snoc (h : At entries π t) {ev : HostEvent} (hgood : Good entries t ev)
    (hcalm : announces ev = false) (hpass : π.after ev = π') : At entries π' (t ++ [ev]) := by
  refine ⟨h.clean.snoc hgood, fun x hx => ?_, by rw [passOf_snoc, h.pass, hpass]⟩
  rw [List.getLast?_concat, Option.mem_some_iff] at hx
  exact hx ▸ hcalm

/-- A call that is neither a write nor a read. -/
theorem triple_anyCall {op : HostOp} {f : HostAns op → Bench α}
    (hgood : ∀ t x, Good entries t ⟨op, x⟩) (hcalm : ∀ x, announces ⟨op, x⟩ = false)
    (hpass : ∀ x, π.after ⟨op, x⟩ = π')
    (hf : ∀ x, Triple Any (Shape entries) (At entries π') (f x) A B) :
    Triple Any (Shape entries) (At entries π) (ask op >>= f) A B := by
  refine traceMachine_closed.triple_bind (A := fun _ => At entries π')
    (traceMachine_closed.triple_ask ?_) hf
  rintro t x _ _ hat rfl
  have hat' := hat.snoc (hgood t x) (hcalm x) (hpass x)
  exact ⟨Or.inl hat'.clean, hat'⟩

def malformed (path : PathBuf) : BenchError := .state s!"cpuidle value is not 0 or 1: {path.display}"

/-- One value read, with all that can come of it. -/
theorem triple_anyReadBit {I : HostTrace → Prop} (path : PathBuf) (t : HostTrace)
    (hI : ∀ x : Except IoError String, I (t ++ [⟨.readToString path, x⟩])) :
    Triple Any I (· = t) (readBit path)
      (fun v t' => ∃ c, t' = t ++ [readEvent path c] ∧ v = trim c ∧ IsBit v)
      (fun e t' => (∃ x : IoError, t' = t ++ [⟨.readToString path, .error x⟩]) ∨
        ∃ c, t' = t ++ [readEvent path c] ∧ ¬ IsBit (trim c) ∧ e = malformed path) := by
  have hM : Closed Any := traceMachine_closed
  refine hM.triple_bind (A := fun v t' => ∃ c, t' = t ++ [readEvent path c] ∧ v = trim c) ?_
    fun v => ?_
  · refine hM.triple_bind (A := fun x t' => t' = t ++ [⟨.readToString path, x⟩])
      (hM.triple_ask ?_) fun x => ?_
    · rintro _ x _ _ rfl rfl
      exact ⟨hI x, rfl⟩
    · cases x with
      | ok c => exact hM.triple_pure fun t' _ ht' => ⟨c, ht', rfl⟩
      | error x => exact hM.triple_throw fun t' _ ht' => Or.inl ⟨x, ht'⟩
  · refine triple_ite (fun hno => ?_) fun hbit => ?_
    · refine hM.triple_throw fun t' _ ht' => ?_
      obtain ⟨c, ht', rfl⟩ := ht'
      exact Or.inr ⟨c, ht', fun hbit => hbit.elim hno.1 hno.2, rfl⟩
    · refine hM.triple_pure fun t' _ ht' => ?_
      obtain ⟨c, ht', rfl⟩ := ht'
      refine ⟨c, ht', rfl, ?_⟩
      by_contra hno
      exact hbit ⟨fun h => hno (Or.inl h), fun h => hno (Or.inr h)⟩

/-- The value of a read that a call has announced is not judged. -/
theorem triple_announcedRead {path : PathBuf} (hname : isName path = false) :
    Triple Any (Shape entries)
      (fun t => Clean entries t ∧ (∃ ev ∈ t.getLast?, announces ev = true) ∧ passOf t = π)
      (readBit path) (fun _ => At entries π) (fun _ => Clean entries) := by
  refine triple_of_state fun t _ ht => ?_
  obtain ⟨hclean, ⟨ev, hev, hannounced⟩, hpass⟩ := ht
  have hat : ∀ x : Except IoError String, At entries π (t ++ [⟨.readToString path, x⟩]) := by
    intro x
    refine ⟨hclean.snoc ?_, fun ev' hev' => ?_, by rw [passOf_snoc, hpass, Pass.after_read]⟩
    · cases x with
      | error x => trivial
      | ok c =>
        intro hown
        rw [hown.2 ev hev] at hannounced
        exact nomatch hannounced
    · rw [List.getLast?_concat, Option.mem_some_iff] at hev'
      exact hev' ▸ hname
  refine (triple_anyReadBit path t fun x => Or.inl (hat x).clean).conseq (fun _ _ h => h) ?_ ?_
  · rintro v _ _ ⟨c, rfl, _⟩
    exact hat (.ok c)
  · rintro e _ _ (⟨x, rfl⟩ | ⟨c, rfl, _⟩)
    · exact (hat (.error x)).clean
    · exact (hat (.ok c)).clean

/-- A read of a pass: the value is good, or the read is the bad one. -/
theorem triple_ownRead {e : IdleEntry} (he : e ∈ entries) (hname : isName e.disablePath = false)
    (hpaths : (entries.map IdleEntry.disablePath).Nodup) {t : HostTrace} (hat : At entries π t) :
    Triple Any (Shape entries) (· = t) (readBit e.disablePath)
      (fun v t' => ∃ c, v = trim c ∧ IsBit v ∧ t' = t ++ [readEvent e.disablePath c] ∧
        (π.Accepts e v ∧ At entries π t' ∨ ¬ π.Accepts e v ∧ BadRead entries t e c))
      (fun err t' => Clean entries t' ∨ ∃ c, t' = t ++ [readEvent e.disablePath c] ∧
        BadRead entries t e c ∧ ¬ IsBit (trim c) ∧ err = malformed e.disablePath) := by
  have hown : OwnRead t e.disablePath := ⟨hname, hat.calm⟩
  have hafter : ∀ x : Except IoError String, π.after ⟨.readToString e.disablePath, x⟩ = π :=
    π.after_read
  have herror : ∀ x : IoError, At entries π (t ++ [⟨.readToString e.disablePath, .error x⟩]) :=
    fun x => hat.snoc trivial hname (hafter _)
  have hgood : ∀ c, IsBit (trim c) → π.Accepts e (trim c) →
      At entries π (t ++ [readEvent e.disablePath c]) := by
    intro c hbit haccepts
    refine hat.snoc (fun _ e' he' hpath => ?_) hname (hafter _)
    rw [List.inj_on_of_nodup_map hpaths he' he hpath, hat.pass]
    exact ⟨hbit, haccepts⟩
  have hbad : ∀ c, ¬ (IsBit (trim c) ∧ π.Accepts e (trim c)) → BadRead entries t e c :=
    fun c hno => ⟨hat.clean, he, hown, by rwa [hat.pass]⟩
  have hshape : ∀ x : Except IoError String,
      Shape entries (t ++ [⟨.readToString e.disablePath, x⟩]) := by
    intro x
    cases x with
    | error x => exact Or.inl (herror x).clean
    | ok c =>
      by_cases hc : IsBit (trim c) ∧ π.Accepts e (trim c)
      · exact Or.inl (hgood c hc.1 hc.2).clean
      · exact Or.inr ⟨t, e, c, [], rfl, hbad c hc, fun _ h => nomatch h⟩
  refine (triple_anyReadBit e.disablePath t hshape).conseq (fun _ _ h => h) ?_ ?_
  · rintro _ _ _ ⟨c, rfl, rfl, hbit⟩
    refine ⟨c, rfl, hbit, rfl, ?_⟩
    by_cases haccepts : π.Accepts e (trim c)
    · exact Or.inl ⟨haccepts, hgood c hbit haccepts⟩
    · exact Or.inr ⟨haccepts, hbad c fun h => haccepts h.2⟩
  · rintro err _ _ (⟨x, rfl⟩ | ⟨c, rfl, hbit, rfl⟩)
    · exact Or.inl (herror x).clean
    · exact Or.inr ⟨c, rfl, hbad c fun h => hbit h.1, hbit, rfl⟩

/-- A check for symlinks stays in its pass. -/
theorem triple_anyRejectSymlink (path : PathBuf) :
    Triple Any (Shape entries) (At entries π) (rejectSymlink path) (fun _ => At entries π)
      (fun _ => Clean entries) := by
  have hM : Closed Any := traceMachine_closed
  refine triple_anyCall (fun _ _ => trivial) (fun _ => rfl) (fun _ => Pass.after_symlink π _)
    fun x => ?_
  cases x with
  | error x => exact hM.triple_throw fun _ _ h => h.clean
  | ok isSymlink =>
    rw [ioResult_ok_bind]
    exact triple_ite (fun _ => hM.triple_throw fun _ _ h => h.clean)
      fun _ => hM.triple_pure fun _ _ h => h

theorem isName_name (dir : PathBuf) : isName (dir.join "name") = true := by
  simp [isName, PathBuf.join]

theorem isName_disable (dir : PathBuf) : isName (dir.join "disable") = false := by
  simp [isName, PathBuf.join]

/-- A name that is read announces its directory. -/
theorem triple_anyReadName (dir : PathBuf) (operation : String) :
    Triple Any (Shape entries) (At entries π) (readTrimmed (dir.join "name") operation)
      (fun _ t => Clean entries t ∧ (∃ ev ∈ t.getLast?, announces ev = true) ∧ passOf t = π)
      (fun _ => Clean entries) := by
  have hM : Closed Any := traceMachine_closed
  refine hM.triple_bind (A := fun _ t => Clean entries t ∧
    (∃ ev ∈ t.getLast?, announces ev = true) ∧ passOf t = π) (hM.triple_ask ?_) fun x => ?_
  · rintro t x _ _ hat rfl
    have hclean : Clean entries (t ++ [⟨.readToString (dir.join "name"), x⟩]) := by
      refine hat.clean.snoc ?_
      cases x with
      | error x => trivial
      | ok c =>
        rintro ⟨hname, _⟩
        rw [isName_name] at hname
        exact nomatch hname
    refine ⟨Or.inl hclean, hclean, ⟨_, List.getLast?_concat .., isName_name dir⟩, ?_⟩
    rw [passOf_snoc, hat.pass, Pass.after_read]
  · cases x with
    | error x => exact hM.triple_throw fun _ _ h => h.1
    | ok c => exact hM.triple_pure fun _ _ h => h

/-- An inventory item stays in its pass. -/
theorem triple_anyInventoryItem (cpu : ℕ) (root : PathBuf) (fileName : String) :
    Triple Any (Shape entries) (At entries π) (inventoryItem cpu root fileName)
      (fun r t => (∀ e ∈ r, isName e.disablePath = false) ∧ At entries π t)
      (fun _ => Clean entries) := by
  have hM : Closed Any := traceMachine_closed
  unfold inventoryItem
  split
  · exact hM.triple_pure fun _ _ h => ⟨fun _ he => absurd he (by simp), h⟩
  · split
    · exact hM.triple_throw fun _ _ h => h.clean
    · refine hM.triple_bind (triple_anyRejectSymlink _) fun _ =>
        hM.triple_bind (triple_anyRejectSymlink _) fun _ =>
        hM.triple_bind (triple_anyRejectSymlink _) fun _ =>
        hM.triple_bind (triple_anyReadName _ _) fun _ =>
        hM.triple_bind (triple_announcedRead (isName_disable _)) fun _ =>
        hM.triple_pure fun _ _ h => ⟨fun e he => ?_, h⟩
      cases he
      exact isName_disable _

/-- So do the items of a processor. -/
theorem triple_anyInventoryItems (cpu : ℕ) (root : PathBuf) (items : List (Except IoError String))
    (scan : CpuScan) (hscan : ∀ e ∈ scan.entries, isName e.disablePath = false) :
    Triple Any (Shape entries) (At entries π) (inventoryItems cpu root items scan)
      (fun scan' t => (∀ e ∈ scan'.entries, isName e.disablePath = false) ∧ At entries π t)
      (fun _ => Clean entries) := by
  have hM : Closed Any := traceMachine_closed
  induction items generalizing scan with
  | nil => exact hM.triple_pure fun _ _ h => ⟨hscan, h⟩
  | cons item rest ih =>
    cases item with
    | error x => exact hM.triple_throw fun _ _ h => h.clean
    | ok fileName =>
      rw [inventoryItems, ioResult_ok_bind]
      refine hM.triple_bind (triple_anyInventoryItem _ _ _) fun r => triple_of_pure fun hr => ?_
      cases r with
      | none => exact ih scan hscan
      | some e =>
        refine ih (scan.push e) fun e' he' => ?_
        rcases List.mem_append.mp he' with he' | he'
        · exact hscan e' he'
        · rw [List.mem_singleton.mp he']
          exact hr e rfl

/-- A listing may begin the next pass. -/
theorem triple_anyInventoryCpu (root : PathBuf) (cpu : ℕ) :
    Triple Any (Shape entries) (At entries π) (inventoryCpu root cpu)
      (fun es t => (∀ e ∈ es, isName e.disablePath = false) ∧ At entries π.listed t)
      (fun _ => Clean entries) := by
  have hM : Closed Any := traceMachine_closed
  refine hM.triple_bind (triple_anyRejectSymlink _) fun _ =>
    hM.triple_bind (triple_anyRejectSymlink _) fun _ => ?_
  refine triple_anyCall (fun _ _ => trivial) (fun _ => rfl) (fun _ => π.after_readDir _) fun x => ?_
  cases x with
  | error x => exact hM.triple_throw fun _ _ h => h.clean
  | ok items =>
    rw [ioResult_ok_bind]
    refine hM.triple_bind (triple_anyInventoryItems _ _ items _ fun _ he => nomatch he)
      fun scan => triple_of_pure fun hscan => ?_
    refine triple_ite (fun _ => hM.triple_throw fun _ _ h => h.clean) fun _ => ?_
    exact hM.triple_pure fun _ _ h => ⟨fun e he => hscan e ((List.mem_insertionSort _).mp he), h⟩

/-- The pass after an inventory. -/
def Pass.afterInventory (π : Pass) : List ℕ → Pass
  | [] => π
  | _ => π.listed

theorem Pass.afterInventory_check (cpus : List ℕ) :
    Pass.check.afterInventory cpus = .check := by
  cases cpus <;> rfl

theorem Pass.afterInventory_cpus (π : Pass) {es : List IdleEntry} (hes : es ≠ []) :
    π.afterInventory (dedup (sortUnstable (es.map IdleEntry.cpu))) = π.listed := by
  have hlength : (sortUnstable (es.map IdleEntry.cpu)).length = es.length := by
    rw [sortUnstable, List.length_insertionSort, List.length_map]
  cases hsorted : sortUnstable (es.map IdleEntry.cpu) with
  | nil =>
    rw [hsorted] at hlength
    exact absurd (List.length_eq_zero_iff.mp hlength.symm) hes
  | cons cpu rest => rfl

/-- An inventory of some processors ends in the pass that its listings begin. -/
theorem triple_anyInventory (root : PathBuf) (cpus : List ℕ) :
    Triple Any (Shape entries) (At entries π) (inventory root cpus)
      (fun es t => (∀ e ∈ es, isName e.disablePath = false) ∧ At entries (π.afterInventory cpus) t)
      (fun _ => Clean entries) := by
  have hM : Closed Any := traceMachine_closed
  induction cpus generalizing π with
  | nil => exact hM.triple_pure fun _ _ h => ⟨fun _ he => absurd he List.not_mem_nil, h⟩
  | cons cpu rest ih =>
    have hlisted : π.listed.afterInventory rest = π.listed := by
      cases rest with
      | nil => rfl
      | cons _ _ => exact π.listed_listed
    refine hM.triple_bind (triple_anyInventoryCpu _ _) fun first => triple_of_pure fun hfirst => ?_
    refine hM.triple_bind ih fun others => triple_of_pure fun hothers => ?_
    rw [hlisted]
    refine hM.triple_pure fun t _ hat => ⟨fun e he => ?_, hat⟩
    exact (List.mem_append.mp he).elim (hfirst e) (hothers e)

/-- Past a validation every recorded path is a value file, and if there is one the
listing was read. -/
theorem triple_anyValidateInventory (root : PathBuf) (recorded : List IdleEntry) :
    Triple Any (Shape entries) (At entries π) (validateInventory root recorded)
      (fun _ t => (∀ e ∈ recorded, isName e.disablePath = false) ∧ Clean entries t ∧
        (recorded = [] ∨ At entries π.listed t) ∧ (π = .check → At entries .check t))
      (fun _ => Clean entries) := by
  have hM : Closed Any := traceMachine_closed
  refine hM.triple_bind (triple_anyInventory _ _) fun current => triple_of_pure fun hcurrent => ?_
  refine triple_ite (fun _ => hM.triple_throw fun _ _ h => h.clean) fun hok => ?_
  refine hM.triple_pure fun t _ hat => ⟨fun e he => ?_, hat.clean, ?_, ?_⟩
  · obtain ⟨c, hc, hpath⟩ := (sameStates_paths (sameStates_iff.mp hok)).2 e he
    exact hpath ▸ hcurrent c hc
  · by_cases hnil : recorded = []
    · exact Or.inl hnil
    · rw [π.afterInventory_cpus hnil] at hat
      exact Or.inr hat
  · rintro rfl
    rw [Pass.afterInventory_check] at hat
    exact hat

end Calls

end Snoozer.Benchctl