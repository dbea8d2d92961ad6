import Snoozer.RestoreContract
import Snoozer.CpuIdleCoordinate

/-! A run whose `apply` stops because somebody else has changed an entry. The cleanup
goes by values alone, so the foreign value stays only where the policy never meant to
change the entry. -/
namespace Snoozer.Benchctl
open Interactive Fallible

/-- Nothing fails, and somebody else writes one file, once, at any time. -/
def Host.intruded (host : Host) (path : PathBuf) (contents : String) :
    Machine HostOp HostAns (HostState × Bool) where
  act op s x s' := host.act false op s.1 x s'.1 ∧ s'.2 = s.2
  env s s' := s.2 = false ∧ s' = (s.1.setSysfs path (some contents), true)

def changedBeforeApply (path : PathBuf) : BenchError :=
  .state s!"cpuidle value changed before apply: {path.display}"

/-- `coordinate_run` reports that `apply` stopped at this path, whatever became of the cleanup. -/
def StoppedBy (path : PathBuf) (r : Except BenchError Unit) : Prop :=
  r = .error (changedBeforeApply path) ∨
    ∃ restoreError : BenchError, r = .error (.state
      (s!"apply failed ({(changedBeforeApply path).display}); " ++
        s!"cleanup also failed ({restoreError.display})"))

variable {codec : Codec} {host : Host} {dir path : PathBuf} {contents : String} {α : Type}

/-- What else `apply` can report. -/
inductive ApplyError : BenchError → Prop where
  | io (operation : String) (source : IoError) : ApplyError (.io operation source)
  | preflight (detail : String) : ApplyError (.preflight detail)
  | malformed (path : PathBuf) : ApplyError (malformed path)
  | differs : ApplyError (.state "current cpuidle inventory differs from the journal")
  | readback (path : PathBuf) (expected actual : String) :
    ApplyError (.state (s!"cpuidle readback failed for {path.display}: " ++
      s!"expected {expected}, found {actual}"))

/-- Two texts that differ at a place where both have a character. -/
def clash : List Char → List Char → Bool
  | c :: text, d :: text' => c ≠ d || clash text text'
  | _, _ => false

/-- Texts whose prefixes differ in a character stay different however they go on. -/
theorem append_ne_of_clash {a b : List Char} (h : clash a b = true) (x y : List Char) :
    a ++ x ≠ b ++ y := by
  induction a generalizing b with
  | nil => cases h
  | cons c a ih =>
    cases b with
    | nil => cases h
    | cons d b =>
      intro heq
      obtain ⟨hcd, hrest⟩ := List.cons.inj heq
      rcases Bool.or_eq_true_iff.mp h with hne | h
      · exact of_decide_eq_true hne hcd
      · exact ih h hrest

/-- The display of such an error is not the beginning of a stop at a changed value. -/
theorem ApplyError.display_ne {error : BenchError} (h : ApplyError error) (x y : List Char) :
    error.display.toList ++ x ≠ (changedBeforeApply path).display.toList ++ y := by
  have hstate : ∀ detail : String, (BenchError.state detail).display.toList =
      "operation state is unavailable: ".toList ++ detail.toList := fun detail => by
    rw [← String.toList_append]
    rfl
  have hchanged : (changedBeforeApply path).display.toList ++ y =
      "operation state is unavailable: ".toList ++ ("cpuidle value changed before apply: ".toList ++
        (path.display.toList ++ y)) := by
    rw [changedBeforeApply, hstate, List.append_assoc]
    simp only [toString, String.toList_append, List.append_assoc]
  rw [hchanged]
  cases h with
  | io operation source =>
    change ("I/O during " ++ operation ++ ": " ++ source.message).toList ++ x ≠ _
    simp only [String.toList_append, List.append_assoc]
    exact append_ne_of_clash (by simp [clash]) _ _
  | preflight detail =>
    change ("preflight rejected the operation: " ++ detail).toList ++ x ≠ _
    simp only [String.toList_append, List.append_assoc]
    exact append_ne_of_clash (by simp [clash]) _ _
  | malformed path =>
    rw [Benchctl.malformed, hstate, List.append_assoc, ne_eq, List.append_cancel_left_eq]
    simp only [toString, String.toList_append, List.append_assoc]
    exact append_ne_of_clash (by simp [clash]) _ _
  | differs =>
    rw [hstate, List.append_assoc, ne_eq, List.append_cancel_left_eq]
    exact append_ne_of_clash (by simp [clash]) _ _
  | readback path expected actual =>
    rw [hstate, List.append_assoc, ne_eq, List.append_cancel_left_eq]
    simp only [toString, String.toList_append, List.append_assoc]
    exact append_ne_of_clash (by simp [clash]) _ _

/-- Alone or with a failed cleanup, such an error does not read like a stop at a changed value. -/
theorem ApplyError.not_stopped {error : BenchError} (h : ApplyError error) :
    ¬ StoppedBy path (.error error) ∧ ∀ restoreError : BenchError, ¬ StoppedBy path
      (.error (.state (s!"apply failed ({error.display}); " ++
        s!"cleanup also failed ({restoreError.display})"))) := by
  have hchars : ∀ {a b : String}, (Except.error (.state a) : Except BenchError Unit) =
      .error (.state b) → a.toList = b.toList := by
    intro a b hab
    rw [BenchError.state.inj (Except.error.inj hab)]
  constructor
  · rintro (hr | ⟨restoreError, hr⟩)
    · have hr := congrArg (fun e : BenchError => e.display.toList ++ []) (Except.error.inj hr)
      exact h.display_ne _ _ hr
    · cases h with
      | io operation source => cases hr
      | preflight detail => cases hr
      | malformed path =>
        have hr := hchars hr
        simp only [toString, String.toList_append, List.append_assoc] at hr
        exact append_ne_of_clash (by simp [clash]) _ _ hr
      | differs =>
        have hr := hchars hr
        simp only [toString, String.toList_append, List.append_assoc] at hr
        rw [← List.append_nil (String.toList "current cpuidle inventory differs from the journal")] at hr
        exact append_ne_of_clash (by simp [clash]) _ _ hr
      | readback path expected actual =>
        have hr := hchars hr
        simp only [toString, String.toList_append, List.append_assoc] at hr
        exact append_ne_of_clash (by simp [clash]) _ _ hr
  · rintro restoreError (hr | ⟨restoreError', hr⟩)
    · have hr := hchars hr
      simp only [toString, String.toList_append, List.append_assoc] at hr
      exact append_ne_of_clash (by simp [clash]) _ _ hr
    · have hr := hchars hr
      simp only [toString, String.toList_append, List.append_assoc,
        List.append_cancel_left_eq] at hr
      exact h.display_ne _ _ hr

section Throws

theorem throws_ioResult (operation : String) (r : Except IoError α) :
    Fallible.Throws ApplyError (ioResult operation r) := by
  cases r with
  | ok a => exact throws_pure a
  | error e => exact throws_throw (.io operation e)

theorem throws_ioCall {β : Type} {op : HostOp} {f : HostAns op → Bench β}
    (hf : ∀ x, Fallible.Throws ApplyError (f x)) : Fallible.Throws ApplyError (ask op >>= f) :=
  throws_bind (throws_lift _) hf

theorem throws_rejectSymlink (path : PathBuf) : Fallible.Throws ApplyError (rejectSymlink path) :=
  throws_ioCall fun _ => throws_bind (throws_ioResult _ _) fun _ =>
    throws_ite (throws_throw (.preflight _)) (throws_pure _)

theorem throws_readTrimmed (path : PathBuf) (operation : String) :
    Fallible.Throws ApplyError (readTrimmed path operation) :=
  throws_ioCall fun _ => throws_bind (throws_ioResult _ _) fun _ => throws_pure _

theorem throws_readBit (path : PathBuf) : Fallible.Throws ApplyError (readBit path) :=
  throws_bind (throws_readTrimmed _ _) fun _ => throws_ite (throws_throw (.malformed _)) (throws_pure _)

theorem throws_writeBit (path : PathBuf) (v : String) :
    Fallible.Throws ApplyError (writeBit path v) :=
  throws_ioCall fun _ => throws_bind (throws_ioResult _ _) fun _ => throws_bind (throws_readBit _)
    fun _ => throws_ite (throws_throw (.readback ..)) (throws_pure _)

theorem throws_inventoryItem (cpu : ℕ) (root : PathBuf) (fileName : String) :
    Fallible.Throws ApplyError (inventoryItem cpu root fileName) := by
  unfold inventoryItem
  split
  · exact throws_pure _
  · split
    · exact throws_throw (.preflight _)
    · exact throws_bind (throws_rejectSymlink _) fun _ => throws_bind (throws_rejectSymlink _)
        fun _ => throws_bind (throws_rejectSymlink _) fun _ => throws_bind (throws_readTrimmed _ _)
        fun _ => throws_bind (throws_readBit _) fun _ => throws_pure _

/-- An inventory ends in no error that `apply` could not end in. -/
theorem throws_inventoryItems (cpu : ℕ) (root : PathBuf) (items : List (Except IoError String))
    (scan : CpuScan) : Fallible.Throws ApplyError (inventoryItems cpu root items scan) := by
  induction items generalizing scan with
  | nil => exact throws_pure _
  | cons item rest ih =>
    apply throws_bind (throws_ioResult _ _)
    intro fileName
    apply throws_bind (throws_inventoryItem ..)
    intro entry
    cases entry with
    | none => exact ih scan
    | some entry => exact ih (scan.push entry)

theorem throws_inventory (root : PathBuf) (cpus : List ℕ) :
    Fallible.Throws ApplyError (inventory root cpus) := by
  induction cpus with
  | nil => exact throws_pure _
  | cons cpu rest ih =>
    have hcpu : Fallible.Throws ApplyError (inventoryCpu root cpu) :=
      throws_bind (throws_rejectSymlink _) fun _ => throws_bind (throws_rejectSymlink _) fun _ =>
        throws_ioCall fun _ => throws_bind (throws_ioResult _ _) fun _ =>
        throws_bind (throws_inventoryItems ..) fun _ =>
        throws_ite (throws_throw (.preflight _)) (throws_pure _)
    exact throws_bind hcpu fun _ => throws_bind ih fun _ => throws_pure _

theorem throws_validateInventory (root : PathBuf) (es : List IdleEntry) :
    Fallible.Throws ApplyError (validateInventory root es) :=
  throws_bind (throws_inventory _ _) fun _ => throws_ite (throws_throw .differs) (throws_pure _)

end Throws

section Intruded

variable {P : HostState × Bool → Prop} {s₀ : HostState}

theorem intruded_closed : Closed (absorb (host.intruded path contents)) := absorb_closed

/-- Before a call the foreign write may have happened. -/
theorem triple_intrudedAsk {op : HostOp} {A : HostAns op → HostState × Bool → Prop}
    {B : BenchError → HostState × Bool → Prop}
    (hP : Stable (host.intruded path contents) P)
    (h : ∀ s x s', P s → host.act false op s.1 x s'.1 → s'.2 = s.2 → A x s') :
    Triple (absorb (host.intruded path contents)) (fun _ => True) P (ask op) A B := by
  apply intruded_closed.triple_ask
  rintro s x s' _ hs ⟨s₁, henv, hact, hflag⟩
  exact ⟨trivial, h s₁ x s' (hP.reach hs henv) hact hflag⟩

theorem triple_intrudedWithin {S : HostOp → Prop} (hP : Stable (host.intruded path contents) P)
    (hS : ∀ op s x s', S op → P s → host.act false op s.1 x s'.1 → s'.2 = s.2 → P s')
    {p : Bench α} (hp : Within S p) :
    Triple (absorb (host.intruded path contents)) (fun _ => True) P p (fun _ => P) fun _ => P := by
  refine intruded_closed.triple_within ?_ hp
  rintro op s x s' hop _ hs ⟨s₁, henv, hact, hflag⟩
  exact ⟨trivial, hS op s₁ x s' hop (hP.reach hs henv) hact hflag⟩

/-- After the foreign write the program runs alone. -/
theorem triple_afterIntrusion {P : HostState → Prop} {p : Bench α} {A : α → HostState → Prop}
    {B : BenchError → HostState → Prop}
    (h : Triple (host.machine false false) (fun _ => True) P p A B) :
    Triple (absorb (host.intruded path contents)) (fun _ => True) (fun s => s.2 = true ∧ P s.1) p
      (fun a s => s.2 = true ∧ A a s.1) (fun e s => s.2 = true ∧ B e s.1) := by
  intro s _ hs q s' hr
  have key : Reach (host.machine false false) (p.run, s.1) (q, s'.1) ∧ s'.2 = true := by
    generalize hc : (q, s') = c at hr
    induction hr generalizing q s' with
    | refl =>
      cases hc
      exact ⟨.refl, hs.1⟩
    | @tail c₁ c₂ _ hstep ih =>
      obtain ⟨q₁, s₁⟩ := c₁
      obtain ⟨hr₁, hflag⟩ := ih q₁ s₁ rfl
      cases hc
      cases hstep with
      | call hact =>
        obtain ⟨s₂, henv, hact, hflag'⟩ := hact
        -- The writer has used its one write.
        have hs₂ : s₂ = s₁ := by
          rcases Relation.ReflTransGen.cases_head henv with rfl | ⟨t, ⟨hunused, _⟩, _⟩
          · rfl
          · exact nomatch hunused.symm.trans hflag
        rw [hs₂] at hact hflag'
        exact ⟨hr₁.tail (.call hact), hflag'.trans hflag⟩
      | loop => exact ⟨hr₁.tail .loop, hflag⟩
      | env he => exact he.elim
  refine ⟨trivial, ?_⟩
  rintro (e | a) rfl
  · exact ⟨key.2, ((h s.1 trivial hs.2 _ _ key.1).2 _ rfl)⟩
  · exact ⟨key.2, ((h s.1 trivial hs.2 _ _ key.1).2 _ rfl)⟩

/-- A bit that is read is the value of the file, whatever the intruder does around the call. -/
theorem triple_intrudedReadBit {p : PathBuf} (hP : Stable (host.intruded path contents) P) :
    Triple (absorb (host.intruded path contents)) (fun _ => True) P (readBit p)
      (fun v s => (value s.1.sysfs p = some v ∧ IsBit v) ∧ P s) (fun error _ => ApplyError error) := by
  have hM : Closed (absorb (host.intruded path contents)) := intruded_closed
  refine (Triple.throws (B := fun _ _ => True) ?_ (throws_readBit p)).conseq (fun _ _ h => h) (fun _ _ _ h => h)
    fun _ _ _ h => h.1
  refine hM.triple_bind (A := fun v s => value s.1.sysfs p = some v ∧ P s)
    (hM.triple_bind (A := fun x s => (∀ c, x = .ok c → s.1.sysfs p = some c) ∧ P s)
      (triple_intrudedAsk hP ?_) fun x => ?_) fun v => ?_
  · rintro s x s' hs ⟨hx, hs'⟩ hflag
    have hsame : s' = s := Prod.ext hs' hflag
    rw [hsame]
    refine ⟨?_, hs⟩
    rintro c rfl
    exact hx
  · cases x with
    | error e => exact hM.triple_throw fun _ _ _ => trivial
    | ok c =>
      refine hM.triple_pure fun s _ hs => ⟨?_, hs.2⟩
      rw [value, hs.1 c rfl]
      rfl
  · refine triple_ite (fun _ => hM.triple_throw fun _ _ _ => trivial) fun hbit => ?_
    refine hM.triple_pure fun s _ hs => ⟨⟨hs.1, ?_⟩, hs.2⟩
    by_contra hno
    exact hbit ⟨fun h0 => hno (Or.inl h0), fun h1 => hno (Or.inr h1)⟩

/-- A valid journal is stored. -/
theorem triple_intrudedStore {id : String} {j : Journal} (hvalid : j.validate codec = .ok ())
    {Q : HostState × Bool → Prop} {B : BenchError → HostState × Bool → Prop}
    (hP : Stable (host.intruded path contents) P)
    (h : ∀ s : HostState × Bool, P s → Q (s.1.store id j, s.2)) :
    Triple (absorb (host.intruded path contents)) (fun _ => True) P (storeJournal codec id j)
      (fun _ => Q) B := by
  have hM : Closed (absorb (host.intruded path contents)) := intruded_closed
  unfold storeJournal
  rw [hvalid]
  refine hM.triple_bind (A := fun _ => P) (hM.triple_pure fun _ _ h => h) fun _ => ?_
  refine hM.triple_bind (A := fun x s => x = .ok () ∧ Q s) (triple_intrudedAsk hP ?_) fun x => ?_
  · intro s x s' hs hact hflag
    cases x with
    | error e => exact nomatch hact.1
    | ok u =>
      have hs' : s' = (s.1.store id j, s.2) := Prod.ext hact hflag
      exact ⟨rfl, hs' ▸ h s hs⟩
  · refine triple_of_pure fun hx => ?_
    rw [hx]
    exact hM.triple_pure fun _ _ h => h

/-- A program whose calls all keep an assertion keeps it. -/
theorem triple_intrudedKeeps (hP : Stable (host.intruded path contents) P)
    (hact : ∀ op s x s', P s → host.act false op s.1 x s'.1 → s'.2 = s.2 → P s') (p : Bench α) :
    Triple (absorb (host.intruded path contents)) (fun _ => True) P p (fun _ => P) fun _ => P := by
  intro s _ hs
  refine wp_mono (intruded_closed.wp_keeps (S := fun _ => True) (P := P) (fun _ _ _ => trivial)
    (fun _ => trivial) ?_ p.run.makes_true hs) ?_
  · rintro op s x s' _ hs ⟨s₁, henv, hact', hflag⟩
    exact hact op s₁ x s' (hP.reach hs henv) hact' hflag
  · rintro (e | a) s' hs'
    · exact hs'
    · exact hs'

/-- The host as `t` has it, up to the foreign write. -/
structure Overlaid (path : PathBuf) (contents : String) (t : HostState) (s : HostState × Bool) :
    Prop where
  sysfs : s.1.sysfs = if s.2 then (t.setSysfs path (some contents)).sysfs else t.sysfs
  journals : s.1.journals = t.journals
  entered : s.1.entered = t.entered

/-- The values that such a host can have shown, once the write may have happened. -/
def Shown (path : PathBuf) (contents : String) (t : HostState) (used : Bool) (p : PathBuf)
    (v : String) : Prop :=
  value t.sysfs p = some v ∨ used = true ∧ p = path ∧ v = trim contents

/-- The answers that such a host can have given. -/
def Answering (host : Host) (path : PathBuf) (contents : String) (t : HostState)
    (s : HostState × Bool) (op : HostOp) (x : HostAns op) : Prop :=
  ∃ r : HostState × Bool, Overlaid path contents t r ∧ (r.2 = true → s.2 = true) ∧
    ∃ r', host.act false op r.1 x r'

variable {t : HostState}

theorem stable_overlaid :
    Stable (host.intruded path contents) (Overlaid path contents t) := by
  rintro s s' hs ⟨hunused, rfl⟩
  have hsysfs := hs.sysfs
  rw [hunused] at hsysfs
  refine ⟨?_, hs.journals, hs.entered⟩
  have hsysfs : s.1.sysfs = t.sysfs := hsysfs
  change Function.update s.1.sysfs path (some contents) = Function.update t.sysfs path (some contents)
  rw [hsysfs]

/-- A value the tree holds is the one before the run or the one that was written over it. -/
theorem Overlaid.shown {s : HostState × Bool} (h : Overlaid path contents t s) {p : PathBuf}
    {v : String} (hv : value s.1.sysfs p = some v) : Shown path contents t s.2 p v := by
  rw [value, h.sysfs] at hv
  cases hused : s.2 with
  | false =>
    rw [hused] at hv
    exact Or.inl hv
  | true =>
    rw [hused, if_pos rfl] at hv
    by_cases hp : p = path
    · rw [hp, HostState.setSysfs_self] at hv
      exact Or.inr ⟨rfl, hp, (Option.some.inj hv).symm⟩
    · rw [HostState.setSysfs_of_ne t hp] at hv
      exact Or.inl hv

/-- What a call that only looks is answered is shown by the tree, before or after the intrusion. -/
theorem observes_answering (s : HostState × Bool) :
    Observes host (Shown path contents t s.2) (Answering host path contents t s) where
  symlink p b h := by
    obtain ⟨_, _, _, _, hact⟩ := h
    exact hact.1
  listing p items h := by
    obtain ⟨_, _, _, _, hact⟩ := h
    exact hact.1.resolve_right fun hfault => nomatch hfault.1
  content p c h := by
    obtain ⟨r, hr, hused, _, hact⟩ := h
    have hv : value r.1.sysfs p = some (trim c) := by
      rw [value, show r.1.sysfs p = some c from hact.1]
      rfl
    exact (hr.shown hv).imp_right fun h => ⟨hused h.1, h.2⟩

/-- A program that only looks keeps the tree overlaid and yields what its answers may yield. -/
theorem triple_overlaidLook {p : Bench α} (hp : Within (HostOp.quiet · = true) p) :
    Triple (absorb (host.intruded path contents)) (fun _ => True) (Overlaid path contents t) p
      (fun a s => MayYield (Answering host path contents t s) p a ∧ Overlaid path contents t s)
      (fun _ => Overlaid path contents t) := by
  refine intruded_closed.triple_mayYield ?_ hp
  rintro op s x s' hop _ hs ⟨s₁, henv, hact, hflag⟩
  have hs₁ := stable_overlaid.reach hs henv
  have hused : s.2 = true → s₁.2 = true := by
    have hstep : Stable (host.intruded path contents) fun r => s.2 = true → r.2 = true := by
      rintro r r' _ ⟨_, rfl⟩ _
      rfl
    exact hstep.reach id henv
  have hsame : s' = s₁ := Prod.ext (Host.act_still (op.still_of_quiet hop) hact) hflag
  rw [hsame] at hact ⊢
  refine ⟨⟨trivial, hs₁⟩, ⟨s₁, hs₁, id, s₁.1, hact⟩, ?_⟩
  rintro op' x' ⟨r, hr, hr', hact'⟩
  exact ⟨r, hr, fun h => hused (hr' h), hact'⟩

end Intruded

section Applying

variable {t : HostState} {es done rest : List IdleEntry} {e : IdleEntry}

/-- Entries already written are at their desired values and the others at their originals,
but for the path of the foreign write, which shows that write as soon as it has happened. -/
structure Applying (dir : PathBuf) (contents : String) (t : HostState) (done rest : List IdleEntry)
    (s : HostState × Bool) : Prop where
  names : ∀ d : PathBuf, value s.1.sysfs (d.join "name") = value t.sysfs (d.join "name")
  written : ∀ e ∈ done, e.disablePath ≠ dir.join "disable" →
    value s.1.sysfs e.disablePath = some e.desired
  pending : ∀ e ∈ rest, e.disablePath ≠ dir.join "disable" →
    value s.1.sysfs e.disablePath = some e.original
  own : ∀ e ∈ rest, e.disablePath = dir.join "disable" →
    value s.1.sysfs e.disablePath = some (if s.2 then trim contents else e.original)
  entered : s.1.entered = t.entered

theorem disable_ne_name (d d' : PathBuf) : d.join "disable" ≠ d'.join "name" := by
  intro h
  have hname : "disable" = "name" := (PathBuf.join_inj h).2
  exact absurd hname (by decide)

/-- The intrusion into one file keeps a half done `apply` half done. -/
theorem stable_applying : Stable (host.intruded (dir.join "disable") contents)
    (Applying dir contents t done rest) := by
  rintro s s' hs ⟨_, rfl⟩
  refine ⟨fun d => ?_, fun e he hne => ?_, fun e he hne => ?_, fun e he heq => ?_, hs.entered⟩
  · rw [value, HostState.setSysfs_of_ne s.1 (disable_ne_name dir d).symm]
    exact hs.names d
  · rw [value, HostState.setSysfs_of_ne s.1 hne]
    exact hs.written e he hne
  · rw [value, HostState.setSysfs_of_ne s.1 hne]
    exact hs.pending e he hne
  · rw [heq, value, HostState.setSysfs_self]
    rfl

/-- Right after the inventory nothing is written yet. -/
theorem Overlaid.applying {s : HostState × Bool} (h : Overlaid (dir.join "disable") contents t s)
    {used : Bool} (hused : used = true → s.2 = true)
    (hes : ∀ e ∈ es, Observed (Shown (dir.join "disable") contents t used) e) :
    Applying dir contents t [] es s := by
  have hother : ∀ p, p ≠ dir.join "disable" → value s.1.sysfs p = value t.sysfs p := by
    intro p hp
    rw [value, h.sysfs]
    split
    · rw [HostState.setSysfs_of_ne t hp, value]
    · rfl
  refine ⟨fun d => hother _ (disable_ne_name dir d).symm, fun _ he => ?_,
    fun e he hne => ?_, fun e he heq => ?_, h.entered⟩
  · cases he
  · rw [hother _ hne]
    rcases (hes e he).current with hcurrent | ⟨_, heq, _⟩
    · exact hcurrent
    · exact absurd heq hne
  · rw [heq, value, h.sysfs]
    cases hflag : s.2 with
    | true =>
      rw [if_pos rfl, HostState.setSysfs_self]
      rfl
    | false =>
      rcases (hes e he).current with hcurrent | ⟨hu, _⟩
      · rw [heq] at hcurrent
        exact hcurrent
      · cases hflag.symm.trans (hused hu)

/-- Where `apply` has stopped: at the foreign value, with every other entry at one of its
two values. -/
structure Stopped (dir : PathBuf) (contents : String) (t : HostState) (es : List IdleEntry)
    (s : HostState × Bool) : Prop where
  used : s.2 = true
  bit : IsBit (trim contents)
  names : ∀ d : PathBuf, value s.1.sysfs (d.join "name") = value t.sysfs (d.join "name")
  found : ∃ e ∈ es, e.disablePath = dir.join "disable" ∧ trim contents ≠ e.original
  current : value s.1.sysfs (dir.join "disable") = some (trim contents)
  others : ∀ e ∈ es, e.disablePath ≠ dir.join "disable" →
    AtOriginal s.1 e ∨ value s.1.sysfs e.disablePath = some e.desired

/-- A stop of `apply`. -/
def StoppedError (dir : PathBuf) (contents : String) (t : HostState) (es : List IdleEntry)
    (error : BenchError) (s : HostState × Bool) : Prop :=
  ApplyError error ∨ error = changedBeforeApply (dir.join "disable") ∧ Stopped dir contents t es s

/-- A value that is no longer the recorded one is the intruder's: `apply` stops at its file. -/
theorem Applying.stopped {s : HostState × Bool} (h : Applying dir contents t done (e :: rest) s)
    {v : String} (hv : value s.1.sysfs e.disablePath = some v) (hbit : IsBit v) (hne : v ≠ e.original) :
    e.disablePath = dir.join "disable" ∧ Stopped dir contents t (done ++ e :: rest) s := by
  have hmem : e ∈ done ++ e :: rest := List.mem_append_right _ List.mem_cons_self
  have hpath : e.disablePath = dir.join "disable" := by
    by_contra hother
    have hcurrent := h.pending e List.mem_cons_self hother
    rw [hv, Option.some.injEq] at hcurrent
    exact hne hcurrent
  have hown := h.own e List.mem_cons_self hpath
  rw [hv, Option.some.injEq] at hown
  have hused : s.2 = true := by
    cases hflag : s.2 with
    | true => rfl
    | false =>
      rw [hflag] at hown
      exact absurd hown hne
  rw [hused, if_pos rfl] at hown
  rw [hown] at hv hbit hne
  rw [hpath] at hv
  refine ⟨hpath, hused, hbit, h.names, ⟨e, hmem, hpath, hne⟩, hv, fun e' he' hother => ?_⟩
  rcases List.mem_append.mp he' with he' | he'
  · exact Or.inr (h.written e' he' hother)
  · exact Or.inl (h.pending e' he' hother)

/-- The desired value of the next entry is written. -/
theorem Applying.write {s : HostState × Bool} (h : Applying dir contents t done (e :: rest) s)
    (hpaths : ((done ++ e :: rest).map IdleEntry.disablePath).Nodup)
    (hfile : ∃ d : PathBuf, e.disablePath = d.join "disable") (hbit : IsBit e.desired) :
    Applying dir contents t (done ++ [e]) rest
      (s.1.setSysfs e.disablePath (some (e.desired ++ "\n")), s.2) := by
  have hdistinct : ∀ e' ∈ done ++ e :: rest, e' ≠ e → e'.disablePath ≠ e.disablePath := by
    intro e' he' hne hpath
    have he : e ∈ done ++ e :: rest := List.mem_append_right _ List.mem_cons_self
    exact hne (List.inj_on_of_nodup_map hpaths he' he hpath)
  obtain ⟨d, hd⟩ := hfile
  have hrest : ∀ e' ∈ rest, e'.disablePath ≠ e.disablePath := by
    rw [List.map_append, List.map_cons] at hpaths
    have hnot := (List.nodup_cons.mp (List.nodup_append.mp hpaths).2.1).1
    exact fun e' he' hpath => hnot (hpath ▸ List.mem_map_of_mem he')
  refine ⟨fun d' => ?_, fun e' he' hother => ?_, fun e' he' hother => ?_, fun e' he' hpath => ?_,
    h.entered⟩
  · rw [value, HostState.setSysfs_of_ne s.1 (hd ▸ (disable_ne_name d d').symm)]
    exact h.names d'
  · by_cases hsame : e' = e
    · rw [hsame, value, HostState.setSysfs_self, Option.map_some, trim_newline hbit]
    · have he' : e' ∈ done := by
        rcases List.mem_append.mp he' with he' | he'
        · exact he'
        · exact absurd (List.mem_singleton.mp he') hsame
      rw [value, HostState.setSysfs_of_ne s.1 (hdistinct e' (List.mem_append_left _ he') hsame)]
      exact h.written e' he' hother
  · rw [value, HostState.setSysfs_of_ne s.1 (hrest e' he')]
    exact h.pending e' (List.mem_cons_of_mem _ he') hother
  · rw [value, HostState.setSysfs_of_ne s.1 (hrest e' he')]
    exact h.own e' (List.mem_cons_of_mem _ he') hpath

/-- The loop of `apply`: it ends among the entries, or stops at the foreign value. -/
theorem triple_intrudedApplyEntries (hpaths : ((done ++ rest).map IdleEntry.disablePath).Nodup)
    (hfiles : ∀ e ∈ rest, ∃ d : PathBuf, e.disablePath = d.join "disable")
    (hbits : ∀ e ∈ rest, IsBit e.desired) :
    Triple (absorb (host.intruded (dir.join "disable") contents)) (fun _ => True)
      (Applying dir contents t done rest) (applyEntries rest)
      (fun _ s => s.1.entered = t.entered) (StoppedError dir contents t (done ++ rest)) := by
  have hM : Closed (absorb (host.intruded (dir.join "disable") contents)) := intruded_closed
  induction rest generalizing done with
  | nil => exact hM.triple_pure fun _ _ h => h.entered
  | cons e rest ih =>
    refine hM.triple_bind ((triple_intrudedReadBit stable_applying).conseq (fun _ _ h => h)
      (fun _ _ _ h => h) fun _ _ _ h => Or.inl h) fun v => ?_
    refine triple_ite (fun hne => hM.triple_throw fun s _ hs => ?_) fun heq => ?_
    · obtain ⟨hpath, hstopped⟩ := hs.2.stopped hs.1.1 hs.1.2 hne
      refine Or.inr ⟨?_, hstopped⟩
      rw [← hpath]
      rfl
    · have happend : done ++ e :: rest = (done ++ [e]) ++ rest := by
        rw [List.append_assoc, List.singleton_append]
      have hrest : Triple (absorb (host.intruded (dir.join "disable") contents)) (fun _ => True)
          (Applying dir contents t (done ++ [e]) rest) (applyEntries rest)
          (fun _ s => s.1.entered = t.entered) (StoppedError dir contents t (done ++ e :: rest)) := by
        rw [happend]
        apply ih
        · rw [← happend]
          exact hpaths
        · exact fun e' he' => hfiles e' (List.mem_cons_of_mem _ he')
        · exact fun e' he' => hbits e' (List.mem_cons_of_mem _ he')
      refine hM.triple_bind (A := fun _ => Applying dir contents t (done ++ [e]) rest) ?_
        fun _ => hrest
      refine (Triple.throws (B := fun _ _ => True) ?_ (throws_writeBit _ _)).conseq
        (fun _ _ h => h) (fun _ _ _ h => h) fun _ _ _ h => Or.inl h.1
      refine hM.triple_bind (A := fun x s => x = .ok () ∧ Applying dir contents t (done ++ [e]) rest s)
        ((triple_intrudedAsk stable_applying ?_).pre fun _ _ h => h.2) fun x => triple_of_pure fun hx => ?_
      · intro s x s' hs hact hflag
        cases x with
        | error err => exact nomatch hact.1
        | ok u =>
          have hs' : s' = (s.1.setSysfs e.disablePath (some (e.desired ++ "\n")), s.2) :=
            Prod.ext hact hflag
          rw [hs']
          exact ⟨rfl, hs.write hpaths (hfiles e List.mem_cons_self) (hbits e List.mem_cons_self)⟩
      · rw [hx]
        refine hM.triple_bind (A := fun _ => Applying dir contents t (done ++ [e]) rest)
          (hM.triple_pure fun _ _ h => h) fun _ => ?_
        refine hM.triple_bind ((triple_intrudedReadBit stable_applying).conseq (fun _ _ h => h)
          (fun _ _ _ h => h.2) fun _ _ _ _ => trivial) fun actual => ?_
        exact triple_ite (fun _ => hM.triple_throw fun _ _ _ => trivial)
          fun _ => hM.triple_pure fun _ _ h => h

/-- An intruded `apply` ends well, or in an error that leaves the tree stopped. -/
theorem triple_intrudedApply {root : PathBuf}
    (hpaths : (es.map IdleEntry.disablePath).Nodup)
    (hfiles : ∀ e ∈ es, ∃ d : PathBuf, e.disablePath = d.join "disable")
    (hbits : ∀ e ∈ es, IsBit e.desired) :
    Triple (absorb (host.intruded (dir.join "disable") contents)) (fun _ => True)
      (Applying dir contents t [] es) (apply root es) (fun _ s => s.1.entered = t.entered)
      (StoppedError dir contents t es) := by
  have hvalidate : Triple (absorb (host.intruded (dir.join "disable") contents)) (fun _ => True)
      (Applying dir contents t [] es) (validateInventory root es)
      (fun _ => Applying dir contents t [] es) (fun _ => Applying dir contents t [] es) := by
    refine triple_intrudedWithin stable_applying ?_ (within_validateInventory (fun _ h => h) _ _)
    intro op s x s' hop hs hact hflag
    have hsame : s' = s := Prod.ext (Host.act_still (op.still_of_quiet hop) hact) hflag
    exact hsame ▸ hs
  exact intruded_closed.triple_bind ((hvalidate.throws (throws_validateInventory _ _)).conseq
    (fun _ _ h => h) (fun _ _ _ h => h) fun _ _ _ h => Or.inl h.1)
    fun _ => triple_intrudedApplyEntries hpaths hfiles hbits

end Applying

section Cleanup

variable {t s₁ : HostState} {es : List IdleEntry} {id : String} {j : Journal} {root : PathBuf}

/-- The foreign value is still there exactly where the policy wants what was there before it. -/
def Decided (dir : PathBuf) (contents : String) (t : HostState) (s : HostState) : Prop :=
  ∃ name original, value t.sysfs (dir.join "name") = some name ∧
    value t.sysfs (dir.join "disable") = some original ∧
    (value s.sysfs (dir.join "disable") = some (trim contents) ↔ original = desiredValue name)

/-- What was observed of the entry of the foreign write before that write. -/
theorem Observed.own {used : Bool} {e : IdleEntry}
    (h : Observed (Shown (dir.join "disable") contents t used) e)
    (hpath : e.disablePath = dir.join "disable") (hne : trim contents ≠ e.original) :
    value t.sysfs (dir.join "name") = some e.name ∧
      value t.sysfs (dir.join "disable") = some e.original ∧ e.desired = desiredValue e.name := by
  obtain ⟨d, hd, hname⟩ := h.files
  have hdir : d = dir := (PathBuf.join_inj (hd.symm.trans hpath)).1
  refine ⟨?_, ?_, h.desired⟩
  · rcases hname with hname | ⟨_, heq, _⟩
    · exact hdir ▸ hname
    · exact absurd heq.symm (disable_ne_name dir d)
  · rcases h.current with hcurrent | ⟨_, _, heq⟩
    · exact hpath ▸ hcurrent
    · exact absurd heq.symm hne

/-- The cleanup of a stopped `apply`: a restoration that runs alone. -/
theorem triple_stoppedRestore {used : Bool} (hvalid : j.validate codec = .ok ())
    (hentries : j.entries = es) (hpaths : (es.map IdleEntry.disablePath).Nodup)
    (hobs : ∀ e ∈ es, Observed (Shown (dir.join "disable") contents t used) e)
    (hstopped : Stopped dir contents t es (s₁, true))
    (hmatch : Yields (host.look s₁) (validateInventory root es) ()) :
    Triple (host.machine false false) (fun _ => True) (· = s₁) (restore codec root id j)
      (fun _ => Decided dir contents t) (fun _ => Decided dir contents t) := by
  obtain ⟨e, he, hpath, hne⟩ := hstopped.found
  obtain ⟨hname, horiginal, hdesired⟩ := (hobs e he).own hpath hne
  have hcurrent : value s₁.sysfs e.disablePath = some (trim contents) := hpath ▸ hstopped.current
  have hbits : ∀ e ∈ j.entries, IsBit e.original ∧ IsBit e.desired := by
    rw [hentries]
    exact fun e he => ⟨(hobs e he).bit, (hobs e he).desired ▸ isBit_desiredValue _⟩
  refine (triple_aloneRestore (hentries ▸ hpaths) hbits hvalid (hentries ▸ hmatch)).conseq
    (fun _ _ h => h) ?_ ?_
  · rintro _ s _ ⟨hstart, hback, _⟩
    -- The foreign value was taken for the desired one and is gone.
    have hdes : trim contents = e.desired := by
      rcases hstart.known e (hentries ▸ he) with hval | hval
      · rw [AtOriginal, hcurrent, Option.some.injEq] at hval
        exact absurd hval hne
      · rw [hcurrent, Option.some.injEq] at hval
        exact hval
    have hfinal : value s.sysfs (dir.join "disable") = some e.original :=
      hpath ▸ hback e (hentries ▸ he)
    refine ⟨e.name, e.original, hname, horiginal, ?_⟩
    rw [hfinal, Option.some.injEq, ← hdesired, hdes]
  · rintro error s _ ⟨e', he', v, hv, hnotOriginal, hnotDesired, _, hsame, _⟩
    -- Only the foreign value can be in conflict, and a conflict changes nothing.
    rw [hentries] at he'
    have hpath' : e'.disablePath = dir.join "disable" := by
      by_contra hother
      rcases hstopped.others e' he' hother with hval | hval
      · exact hnotOriginal (Option.some.inj (hv.symm.trans hval))
      · exact hnotDesired (Option.some.inj (hv.symm.trans hval))
    have hsameEntry : e' = e := List.inj_on_of_nodup_map hpaths he' he (hpath'.trans hpath.symm)
    rw [hsameEntry, hcurrent, Option.some.injEq] at hv
    rw [hsameEntry, ← hv] at hnotDesired
    have hfinal : value s.sysfs (dir.join "disable") = some (trim contents) := by
      rw [hsame, ← hpath]
      exact hcurrent
    refine ⟨e.name, e.original, hname, horiginal, iff_of_true hfinal ?_⟩
    rw [← hdesired]
    -- Two different bits leave no third one.
    rcases hstopped.bit with hbit | hbit
    · rcases (hbits e (hentries ▸ he)) with ⟨ho | ho, hd | hd⟩ <;> simp_all
    · rcases (hbits e (hentries ▸ he)) with ⟨ho | ho, hd | hd⟩ <;> simp_all

/-- A workload that was started is in the history ever after. -/
theorem triple_intrudedSupervise (request : RunRequest) (accepted : Acceptance)
    (clientWatch : Bool) (coordinator : Actor) (hvalid : j.validate codec = .ok ())
    {entered : List String} :
    Triple (absorb (host.intruded path contents)) (fun _ => True) (fun s => s.1.entered = entered)
      (superviseRun codec request accepted clientWatch coordinator j)
      (fun _ s => s.1.entered ≠ entered) (fun _ s => s.1.entered ≠ entered) := by
  have hM : Closed (absorb (host.intruded path contents)) := intruded_closed
  have hstable : ∀ l : List String → Prop,
      Stable (host.intruded path contents) fun s => l s.1.entered := by
    rintro l s s' hs ⟨_, rfl⟩
    exact hs
  have hstore : ∀ j' : Journal, j'.validate codec = .ok () →
      Triple (absorb (host.intruded path contents)) (fun _ => True) (fun s => s.1.entered = entered)
        (storeJournal codec accepted.operationId j') (fun _ s => s.1.entered = entered)
        (fun _ s => s.1.entered ≠ entered) := fun j' hj' =>
    triple_intrudedStore hj' (hstable (· = entered)) fun _ h => h
  have htransition : ∀ (j' : Journal) (stage : Stage), j'.validate codec = .ok () →
      Triple (absorb (host.intruded path contents)) (fun _ => True) (fun s => s.1.entered = entered)
        (j'.transition stage coordinator)
        (fun j'' s => j''.validate codec = .ok () ∧ s.1.entered = entered)
        (fun _ s => s.1.entered ≠ entered) := by
    intro j' stage hj'
    refine hM.triple_bind (A := fun _ s => s.1.entered = entered)
      (triple_intrudedAsk (hstable (· = entered)) ?_) fun millis => ?_
    · intro s x s' hs hact _
      have hact : s'.1 = s.1 := hact
      rw [hact]
      exact hs
    · exact hM.triple_pure fun _ _ h => ⟨Journal.validate_push hj' .., h⟩
  refine hM.triple_bind (htransition j _ hvalid) fun j₁ => triple_of_pure fun hj₁ => ?_
  refine hM.triple_bind (hstore j₁ hj₁) fun _ => ?_
  refine hM.triple_bind (htransition j₁ _ hj₁) fun j₂ => triple_of_pure fun hj₂ => ?_
  refine hM.triple_bind (hstore j₂ hj₂) fun _ => ?_
  refine hM.triple_bind (A := fun _ s => entered.length < s.1.entered.length)
    (triple_intrudedAsk (hstable (· = entered)) ?_) fun result => ?_
  · intro s x s' hs hact _
    have hact : s'.1 = s.1.enter accepted.operationId := hact
    rw [hact, HostState.enter, List.length_append, hs]
    exact Nat.lt_succ_self _
  refine (triple_intrudedKeeps (hstable (entered.length < ·.length)) ?_ _).conseq (fun _ _ h => h)
    (fun _ s _ h => fun heq => ?_) fun _ s _ h => fun heq => ?_
  · intro op s x s' hs hact _
    by_cases hcoordinate : ∃ request, op = .coordinate request
    · obtain ⟨request, rfl⟩ := hcoordinate
      have hact : s'.1 = s.1.enter request.operationId := hact
      rw [hact, HostState.enter, List.length_append]
      exact Nat.lt_succ_of_lt hs
    · by_cases hwrite : ∃ id j, op = .writeJournal id j
      · obtain ⟨id, j', rfl⟩ := hwrite
        cases x with
        | error e => cases hact.1
        | ok u =>
          have hact : s'.1 = s.1.store id j' := hact
          rw [hact]
          exact hs
      · rw [(act_keeps_journals hact (fun id j h => hwrite ⟨id, j, h⟩)
          fun request h => hcoordinate ⟨request, h⟩).2]
        exact hs
  · rw [heq] at h
    exact h.false
  · rw [heq] at h
    exact h.false

end Cleanup

section Runs

variable {s₀ : HostState}

/-- How a run can end in an error: without a journal, after a start of the workload, with
another error, or by a stop of `apply` and its cleanup. -/
def RunError (dir : PathBuf) (contents : String) (s₀ : HostState) (error : BenchError)
    (s : HostState × Bool) : Prop :=
  s.1.journals = s₀.journals ∨ s.1.entered ≠ s₀.entered ∨
    ¬ StoppedBy (dir.join "disable") (.error error) ∨ s.2 = true ∧ Decided dir contents s₀ s.1

theorem triple_overlaidStill {p : Bench α} (hp : Within (HostOp.still · = true) p) :
    Triple (absorb (host.intruded (dir.join "disable") contents)) (fun _ => True)
      (Overlaid (dir.join "disable") contents s₀) p
      (fun _ => Overlaid (dir.join "disable") contents s₀) (RunError dir contents s₀) := by
  refine (triple_intrudedWithin stable_overlaid ?_ hp).conseq (fun _ _ h => h)
    (fun _ _ _ h => h) fun _ _ _ h => Or.inl h.journals
  intro op s x s' hop hs hact hflag
  have hsame : s' = s := Prod.ext (Host.act_still hop hact) hflag
  exact hsame ▸ hs

/-- A run around which the foreign write happens ends well or in one of the four ways of
`RunError`. -/
theorem triple_intrudedExecute (request : RunRequest) (hcpus : request.cpus.Pairwise (· < ·))
    (hlisting : ∀ path names, host.listing path = some names → names.Nodup)
    (accepted : Acceptance) :
    Triple (absorb (host.intruded (dir.join "disable") contents)) (fun _ => True)
      (Overlaid (dir.join "disable") contents s₀) (executeRun codec request accepted)
      (fun _ _ => True) (RunError dir contents s₀) := by
  have hM : Closed (absorb (host.intruded (dir.join "disable") contents)) := intruded_closed
  -- Up to the inventory nothing changes but for the foreign write.
  have hlook : ∀ {α : Type} {p : Bench α}, Within (HostOp.still · = true) p → Triple
      (absorb (host.intruded (dir.join "disable") contents)) (fun _ => True)
      (Overlaid (dir.join "disable") contents s₀) p
      (fun _ => Overlaid (dir.join "disable") contents s₀) (RunError dir contents s₀) :=
    triple_overlaidStill
  have hstill : ∀ op : HostOp, op.quiet = true → op.still = true := HostOp.still_of_quiet
  refine hM.triple_bind (hlook (within_requireNoUnfinishedJournal hstill)) fun _ => ?_
  refine hM.triple_bind (hlook (within_ask (hstill _ rfl))) fun x => ?_
  refine hM.triple_bind (hlook (within_ofExcept x)) fun clientWatch => ?_
  refine hM.triple_bind (hlook (within_acceptSnapshots hstill (fun _ _ => rfl) accepted)) fun _ => ?_
  refine hM.triple_bind (hlook (within_ask (hstill _ rfl))) fun x => ?_
  refine hM.triple_bind (hlook (within_ofExcept x)) fun _ => ?_
  refine hM.triple_bind (hlook (within_ask (hstill _ rfl))) fun coordinator => ?_
  refine hM.triple_bind (hlook (within_readBootId hstill)) fun boot => ?_
  refine hM.triple_bind (A := fun j s => (j.validate codec = .ok () ∧ j.outcome = none) ∧
    Overlaid (dir.join "disable") contents s₀ s) ?_ fun j => triple_of_pure fun hj => ?_
  · refine hM.triple_bind (hlook (within_ask (hstill _ rfl))) fun millis => ?_
    refine hM.triple_pure fun s _ hs => ⟨⟨?_, rfl⟩, hs⟩
    exact Journal.validate_eq_ok.mpr ⟨rfl, rfl, List.cons_ne_nil _ _⟩
  refine hM.triple_bind ((triple_overlaidLook (within_inventory (fun _ h => h) _ _)).conseq
    (fun _ _ h => h) (fun _ _ _ h => h) fun _ _ _ h => Or.inl h.journals) fun es => ?_
  refine triple_of_state fun s _ hs => ?_
  obtain ⟨hmay, hover⟩ := hs
  have hobserves : Observes host (Shown (dir.join "disable") contents s₀ s.2)
      (Answering host (dir.join "disable") contents s₀ s) := observes_answering s
  have hobs : ∀ e ∈ es, Observed (Shown (dir.join "disable") contents s₀ s.2) e :=
    fun e he => (inventory_observed hobserves hmay e he).2
  have hpaths : (es.map IdleEntry.disablePath).Nodup :=
    inventory_nodup hobserves hlisting (hcpus.imp fun h => h.ne) hmay
  obtain ⟨j', hj'⟩ : ∃ j', j' = { j with entries := es } := ⟨_, rfl⟩
  have hvalid' : j'.validate codec = .ok () := by
    rw [hj']
    exact hj.1
  rw [← hj']
  have hentries : j'.entries = es := by rw [hj']
  -- The entry of the foreign write can still be the one that `apply` will find changed.
  refine hM.triple_bind (A := fun _ => Applying dir contents s₀ [] es)
    ((triple_intrudedStore (P := Applying dir contents s₀ [] es) hvalid' stable_applying ?_).pre ?_)
    fun _ => ?_
  · intro s hs
    exact ⟨hs.names, hs.written, hs.pending, hs.own, hs.entered⟩
  · rintro _ _ rfl
    exact hover.applying id hobs
  rw [hentries]
  have hfiles : ∀ e ∈ es, ∃ d : PathBuf, e.disablePath = d.join "disable" := by
    intro e he
    obtain ⟨d, hd, _⟩ := (hobs e he).files
    exact ⟨d, hd⟩
  have happly : Triple (absorb (host.intruded (dir.join "disable") contents)) (fun _ => True)
      (Applying dir contents s₀ [] es) (apply request.sysfsRoot es)
      (fun _ s => s.1.entered = s₀.entered) (StoppedError dir contents s₀ es) :=
    triple_intrudedApply hpaths hfiles fun e he => (hobs e he).desired ▸ isBit_desiredValue _
  refine hM.triple_bind (A := fun x s => match x with
      | .ok _ => s.1.entered = s₀.entered
      | .error error => StoppedError dir contents s₀ es error s)
    (hM.triple_attempt happly) fun applied => ?_
  cases applied with
  | ok _ =>
    exact (triple_intrudedSupervise request accepted clientWatch coordinator hvalid').conseq
      (fun _ _ h => h) (fun _ _ _ _ => trivial) fun _ _ _ h => Or.inr (Or.inl h)
  | error error =>
    refine triple_of_state fun s₁ _ hs₁ => ?_
    rcases hs₁ with hother | ⟨herror, hstopped⟩
    · -- Neither the error nor its report with the cleanup's error is a stop.
      have hnot : ¬ StoppedBy (dir.join "disable") (.error error) := hother.not_stopped.1
      have hcleanup : Triple (absorb (host.intruded (dir.join "disable") contents)) (fun _ => True)
          (· = s₁) (restore codec request.sysfsRoot accepted.operationId j') (fun _ _ => True)
          (fun _ _ => True) :=
        (triple_intrudedKeeps (P := fun _ => True) (fun _ _ _ _ => trivial)
          (fun _ _ _ _ _ _ _ => trivial) _).pre fun _ _ _ => trivial
      refine hM.triple_bind (hM.triple_attempt (C := fun _ _ => True) hcleanup) fun restored => ?_
      cases restored with
      | ok _ => exact hM.triple_throw fun _ _ _ => Or.inr (Or.inr (Or.inl hnot))
      | error e => exact hM.triple_throw fun _ _ _ => Or.inr (Or.inr (Or.inl (hother.not_stopped.2 e)))
    · -- The host still matches its journal, so the cleanup runs to a decision.
      have hused : s₁ = (s₁.1, true) := Prod.ext rfl hstopped.used
      have hreread : Rereadable (Shown (dir.join "disable") contents s₀ s.2) s₁.1 es := by
        refine ⟨fun d v hv => ?_, fun e he => ?_⟩
        · rw [hstopped.names d]
          exact hv.resolve_right fun h => disable_ne_name dir d h.2.1.symm
        · by_cases hpath : e.disablePath = dir.join "disable"
          · exact ⟨_, hpath ▸ hstopped.current, hstopped.bit⟩
          · rcases hstopped.others e he hpath with hval | hval
            · exact ⟨_, hval, (hobs e he).bit⟩
            · exact ⟨_, hval, (hobs e he).desired ▸ isBit_desiredValue _⟩
      have hmatch := validateInventory_again hobserves hmay hcpus hreread
      have hcleanup : Triple (absorb (host.intruded (dir.join "disable") contents)) (fun _ => True)
          (· = s₁) (restore codec request.sysfsRoot accepted.operationId j')
          (fun _ s => s.2 = true ∧ Decided dir contents s₀ s.1)
          (fun _ s => s.2 = true ∧ Decided dir contents s₀ s.1) := by
        apply (triple_afterIntrusion (triple_stoppedRestore hvalid' hentries hpaths hobs
          (hused ▸ hstopped) hmatch)).pre
        rintro _ _ rfl
        exact ⟨hstopped.used, rfl⟩
      refine hM.triple_bind (hM.triple_attempt
        (C := fun _ s => s.2 = true ∧ Decided dir contents s₀ s.1) hcleanup) fun restored => ?_
      cases restored with
      | ok _ => exact hM.triple_throw fun _ _ h => Or.inr (Or.inr (Or.inr h))
      | error e => exact hM.triple_throw fun _ _ h => Or.inr (Or.inr (Or.inr h))

/-- The whole of an intruded `coordinate_run`, its replay of a finished operation included. -/
theorem triple_intrudedCoordinateRun (request : RunRequest)
    (hlisting : ∀ path names, host.listing path = some names → names.Nodup) :
    Triple (absorb (host.intruded (dir.join "disable") contents)) (fun _ => True)
      (Overlaid (dir.join "disable") contents s₀) (coordinateRun codec request)
      (fun _ _ => True) (RunError dir contents s₀) := by
  have hM : Closed (absorb (host.intruded (dir.join "disable") contents)) := intruded_closed
  have hstill : ∀ op : HostOp, op.quiet = true → op.still = true := HostOp.still_of_quiet
  refine hM.triple_bind (A := fun cpus s => cpus.Pairwise (· < ·) ∧
    Overlaid (dir.join "disable") contents s₀ s) ?_ fun cpus => triple_of_pure fun hcpus => ?_
  · refine triple_ite (fun _ => hM.triple_throw fun _ _ h => Or.inl h.journals) fun _ => ?_
    refine triple_ite (fun _ => hM.triple_throw fun _ _ h => Or.inl h.journals) fun _ => ?_
    exact hM.triple_pure fun _ _ h => ⟨normalizeCpus_pairwise _, h⟩
  refine hM.triple_bind (triple_overlaidStill (within_acceptRequest hstill (fun _ => rfl) rfl _))
    fun accepted => ?_
  refine hM.triple_bind (triple_overlaidStill (within_ask rfl)) fun x => ?_
  refine triple_ite (fun _ => ?_) fun _ => triple_intrudedExecute _ hcpus hlisting accepted
  exact (triple_overlaidStill (within_replayJournal hstill accepted)).conseq (fun _ _ h => h)
    (fun _ _ _ _ => trivial) fun _ _ _ h => h

/-- Let somebody else write the disable file of a state once during a run that journals its
inventory and then reports that `apply` found that file changed. The foreign value is
still there at the end if and only if the state had, before the run, the value that the
policy asks of it; otherwise the cleanup has taken it for the policy's own. -/
theorem aborted_apply_retains_iff (codec : Codec) (host : Host)
    (hlisting : ∀ path names, host.listing path = some names → names.Nodup)
    (request : RunRequest) (dir : PathBuf) (contents : String) {s s' : HostState} {used : Bool}
    {r : Except BenchError Unit}
    (hrun : Reach (host.intruded (dir.join "disable") contents)
      ((coordinateRun codec request).run, (s, false)) (.ret r, (s', used)))
    (hjournaled : s'.journals ≠ s.journals) (hnotStarted : s'.entered = s.entered)
    (hstopped : StoppedBy (dir.join "disable") r) :
    ∃ name original, value s.sysfs (dir.join "name") = some name ∧
      value s.sysfs (dir.join "disable") = some original ∧
      (value s'.sysfs (dir.join "disable") = some (trim contents) ↔ original = desiredValue name) := by
  obtain ⟨s₁, hreach, henv⟩ := reach_absorb hrun
  have hover : Overlaid (dir.join "disable") contents s (s, false) := ⟨rfl, rfl, rfl⟩
  have hends := ((triple_intrudedCoordinateRun request hlisting).returns trivial hover hreach).2
  cases r with
  | ok u => exact absurd hstopped (by simp [StoppedBy])
  | error error =>
    -- What the writer does after the last call does not matter.
    have hlast : (s₁.1.journals = s'.journals ∧ s₁.1.entered = s'.entered) ∧
        (s₁.2 = true → s₁.1 = s') := by
      rcases Relation.ReflTransGen.cases_head henv with heq | ⟨t, ⟨hunused, rfl⟩, hrest⟩
      · rw [heq]
        exact ⟨⟨rfl, rfl⟩, fun _ => rfl⟩
      · rcases Relation.ReflTransGen.cases_head hrest with heq | ⟨t', ⟨hused, _⟩, _⟩
        · rw [Prod.mk.injEq] at heq
          rw [← heq.1]
          exact ⟨⟨rfl, rfl⟩, fun h => nomatch h.symm.trans hunused⟩
        · cases hused
    rcases hends with hjournals | hentered | hnot | ⟨hused, hdecided⟩
    · exact absurd (hlast.1.1.symm.trans hjournals) hjournaled
    · exact absurd (hlast.1.2.trans hnotStarted) hentered
    · exact absurd hstopped hnot
    · exact hlast.2 hused ▸ hdecided

end Runs

section Sample

/-- A host without faults, with the operations that have a journal. -/
def Host.serveListed (host : Host) : Handler HostOp HostAns (HostState × List String)
  | .writeJournal id j, t => (.ok (), t.1.store id j, t.2.insert id)
  | .listJournals, t => (.ok (t.2.map .ok), t)
  | op, t => ((host.serve "" op t.1).1, (host.serve "" op t.1).2, t.2)

/-- The foreign write happens right after the first journal is stored. -/
def intrude (path : PathBuf) (contents : String) (t : (HostState × List String) × Bool) :
    (HostState × List String) × Bool :=
  if t.2 = false ∧ t.1.2 ≠ [] then ((t.1.1.setSysfs path (some contents), t.1.2), true) else t

def Host.serveIntruded (host : Host) (path : PathBuf) (contents : String) :
    Handler HostOp HostAns ((HostState × List String) × Bool) := fun op t =>
  ((host.serveListed op (intrude path contents t).1).1,
    (host.serveListed op (intrude path contents t).1).2, (intrude path contents t).2)

def LedgerOf (t : HostState × List String) : Prop :=
  t.2.Nodup ∧ ∀ id, id ∈ t.2 ↔ (t.1.journals id).isSome

/-- A served call is one the host allows, and the ledger stays the list of its writes. -/
theorem Host.serveListed_act (host : Host) (op : HostOp) (t : HostState × List String)
    (ht : LedgerOf t) : host.act false op t.1 (host.serveListed op t).1 (host.serveListed op t).2.1 ∧
      LedgerOf (host.serveListed op t).2 := by
  by_cases hwrite : ∃ id j, op = .writeJournal id j
  · obtain ⟨id, j, rfl⟩ := hwrite
    refine ⟨rfl, List.Nodup.insert ht.1, fun id' => ?_⟩
    change id' ∈ t.2.insert id ↔ ((t.1.store id j).journals id').isSome
    rw [List.mem_insert_iff]
    by_cases hid : id' = id
    · rw [hid, HostState.store_self]
      exact iff_of_true (Or.inl rfl) rfl
    · rw [HostState.store_of_ne t.1 hid, ht.2]
      exact ⟨fun h => h.resolve_left hid, Or.inr⟩
  by_cases hlist : op = .listJournals
  · subst hlist
    exact ⟨⟨Or.inl ⟨t.2, rfl, ht⟩, rfl⟩, ht⟩
  have hserve : host.serveListed op t =
      ((host.serve "" op t.1).1, (host.serve "" op t.1).2, t.2) := by
    cases op with
    | writeJournal id j => exact absurd ⟨id, j, rfl⟩ hwrite
    | listJournals => exact absurd rfl hlist
    | _ => rfl
  have hact := host.serve_answers "" false op t.1 (fun id j h => hwrite ⟨id, j, h⟩) hlist
  rw [hserve]
  refine ⟨hact, ht.1, fun id => (ht.2 id).trans ?_⟩
  by_cases hcoordinate : ∃ request, op = .coordinate request
  · obtain ⟨request, rfl⟩ := hcoordinate
    exact Iff.rfl
  · rw [(act_keeps_journals hact (fun id j h => hwrite ⟨id, j, h⟩)
      fun request h => hcoordinate ⟨request, h⟩).1]

/-- A served call of the intruded host is one it allows. -/
theorem Host.serveIntruded_act (host : Host) (path : PathBuf) (contents : String) (op : HostOp)
    (t : (HostState × List String) × Bool) (ht : LedgerOf t.1) :
    (absorb (host.intruded path contents)).act op (t.1.1, t.2)
        (host.serveIntruded path contents op t).1
        ((host.serveIntruded path contents op t).2.1.1, (host.serveIntruded path contents op t).2.2) ∧
      LedgerOf (host.serveIntruded path contents op t).2.1 := by
  have hintrude : LedgerOf (intrude path contents t).1 ∧ EnvReach (host.intruded path contents)
      (t.1.1, t.2) ((intrude path contents t).1.1, (intrude path contents t).2) := by
    unfold intrude
    split
    · next h => exact ⟨ht, .single ⟨h.1, rfl⟩⟩
    · exact ⟨ht, .refl⟩
  obtain ⟨hact, hledger⟩ := host.serveListed_act op _ hintrude.1
  exact ⟨⟨_, hintrude.2, hact, rfl⟩, hledger⟩

/-- The sample operation, with a foreign `1` right after its inventory is journalled. -/
def intrudedRun (state : String) : Option (Except BenchError Unit × (HostState × List String) × Bool) :=
  (coordinateRun (sampleCodec fun _ => []) sampleRequest).run.run
    (sampleHost.serveIntruded (samplePath state) "1\n") 400 ((.initial sampleSysfs, []), false)

theorem reach_intrudedRun {state : String} {r : Except BenchError Unit}
    {t : (HostState × List String) × Bool} (h : intrudedRun state = some (r, t)) :
    Reach (sampleHost.intruded (samplePath state) "1\n")
      ((coordinateRun (sampleCodec fun _ => []) sampleRequest).run, (.initial sampleSysfs, false))
      (.ret r, (t.1.1, t.2)) :=
  reach_of_absorb (reach_of_run_view (fun t => (t.1.1, t.2)) (I := fun t => LedgerOf t.1)
    (fun op t ht => sampleHost.serveIntruded_act (samplePath state) "1\n" op t ht) 400 _ _
    ⟨List.nodup_nil, fun id => by simp [HostState.initial]⟩ h).1

/-- What the sample operations end with: the error, the records and the two values. -/
def intrudedReport (state : String) : Option (Option BenchError × Bool × List String × Option String) :=
  (intrudedRun state).map fun result =>
    (match result.1 with
      | .ok _ => none
      | .error error => some error,
    (result.2.1.1.journals "op").isSome, result.2.1.1.entered,
    value result.2.1.1.sysfs (samplePath state))

/-- A report that was computed is a run of the machine. -/
theorem intrudedReport_run {state : String} {error : BenchError} {v : Option String}
    (h : intrudedReport state = some (some error, true, [], v)) :
    ∃ s' used, Reach (sampleHost.intruded (samplePath state) "1\n")
        ((coordinateRun (sampleCodec fun _ => []) sampleRequest).run, (.initial sampleSysfs, false))
        (.ret (.error error), (s', used)) ∧
      s'.journals ≠ (HostState.initial sampleSysfs).journals ∧
      s'.entered = (HostState.initial sampleSysfs).entered ∧
      value s'.sysfs (samplePath state) = v := by
  obtain ⟨⟨r, t⟩, hrun, hreport⟩ := Option.map_eq_some_iff.mp h
  simp only [Prod.mk.injEq] at hreport
  obtain ⟨herror, hjournal, hentered, hvalue⟩ := hreport
  have hr : r = .error error := by
    cases r with
    | ok u => cases herror
    | error e => rw [Option.some.inj herror]
  refine ⟨t.1.1, t.2, hr ▸ reach_intrudedRun hrun, ?_, hentered, hvalue⟩
  intro hsame
  rw [hsame] at hjournal
  cases hjournal

set_option maxRecDepth 4000 in
/-- On the polling state, which the policy keeps enabled, the foreign `1` stays. -/
theorem aborted_apply_retains_poll :
    ∃ s' used r, Reach (sampleHost.intruded (samplePath "state0") "1\n")
        ((coordinateRun (sampleCodec fun _ => []) sampleRequest).run,
          (.initial sampleSysfs, false)) (.ret r, (s', used)) ∧
      StoppedBy (samplePath "state0") r ∧
      (value s'.sysfs (samplePath "state0") = some (trim "1\n") ↔ "0" = desiredValue "POLL") := by
  have hreport : intrudedReport "state0" = some (some (.state
      ("apply failed (" ++ (changedBeforeApply (samplePath "state0")).display ++ "); " ++
        ("cleanup also failed (" ++
          (BenchError.restoreConflict (samplePath "state0") "0 or 0" "1").display ++ ")"))),
        true, [], some "1") := by decide +kernel
  obtain ⟨s', used, hrun, hjournaled, hentered, _⟩ := intrudedReport_run hreport
  have hlisting : ∀ path names, sampleHost.listing path = some names → names.Nodup := by
    intro path names h
    unfold sampleHost at h
    dsimp only at h
    split at h
    · cases h
      decide
    · cases h
  obtain ⟨name, original, hname, horiginal, hiff⟩ := aborted_apply_retains_iff _ sampleHost hlisting
    sampleRequest (sampleTree.join "state0") "1\n" hrun hjournaled hentered
    (Or.inr ⟨_, rfl⟩)
  have hname' : name = "POLL" := Option.some.inj (hname.symm.trans (by decide +kernel))
  have horiginal' : original = "0" := Option.some.inj (horiginal.symm.trans (by decide +kernel))
  rw [hname', horiginal'] at hiff
  exact ⟨s', used, _, hrun, Or.inr ⟨_, rfl⟩, hiff⟩

set_option maxRecDepth 4000 in
/-- On a deep state the foreign `1` is put back to `0`. -/
theorem aborted_apply_reverts :
    ∃ s' used r, Reach (sampleHost.intruded (samplePath "state2") "1\n")
        ((coordinateRun (sampleCodec fun _ => []) sampleRequest).run,
          (.initial sampleSysfs, false)) (.ret r, (s', used)) ∧
      StoppedBy (samplePath "state2") r ∧
      value s'.sysfs (samplePath "state2") = some "0" ∧
      value s'.sysfs (samplePath "state2") ≠ some (trim "1\n") := by
  have hreport : intrudedReport "state2" =
      some (some (changedBeforeApply (samplePath "state2")), true, [], some "0") := by
    decide +kernel
  obtain ⟨s', used, hrun, _, _, hvalue⟩ := intrudedReport_run hreport
  refine ⟨s', used, _, hrun, Or.inl rfl, hvalue, ?_⟩
  rw [hvalue]
  decide +kernel

end Sample

end Snoozer.Benchctl
