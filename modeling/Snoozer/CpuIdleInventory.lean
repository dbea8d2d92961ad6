import Snoozer.CpuIdleHost
import Mathlib.Data.List.Forall2

/-! What `inventory` reports about a host, and why it reports the same states again
after the coordinator has changed some of their values. -/
namespace Snoozer.Benchctl
open Interactive Fallible

variable {host : Host} {s s' : HostState} {es : List IdleEntry}

def IsBit (v : String) : Prop := v = "0" ∨ v = "1"

theorem isBit_desiredValue (name : String) : IsBit (desiredValue name) := by
  unfold desiredValue
  split
  · exact Or.inl rfl
  · exact Or.inr rfl

@[simp] theorem yields_ofExcept {α : Type} {look : (op : HostOp) → Option (HostAns op)}
    {r : Except BenchError α} {a : α} : Yields look (ofExcept r) a ↔ r = .ok a := by
  simp [Yields, ofExcept, ExceptT.mk, ExceptT.run, Prog.answer]

@[simp] theorem yields_ioResult {α : Type} {look : (op : HostOp) → Option (HostAns op)}
    {operation : String} {r : Except IoError α} {a : α} :
    Yields look (ioResult operation r) a ↔ r = .ok a := by
  cases r <;> simp [ioResult, Except.mapError]

theorem yields_ite {α : Type} {look : (op : HostOp) → Option (HostAns op)} {c : Prop} [Decidable c]
    {p q : Bench α} {a : α} :
    Yields look (if c then p else q) a ↔ (c ∧ Yields look p a) ∨ (¬ c ∧ Yields look q a) := by
  by_cases hc : c <;> simp [hc]

theorem yields_rejectSymlink {path : PathBuf} {u : Unit} :
    Yields (host.look s) (rejectSymlink path) u ↔ host.symlink path = some false := by
  unfold rejectSymlink
  simp [Host.look]

theorem yields_readTrimmed {path : PathBuf} {operation v : String} :
    Yields (host.look s) (readTrimmed path operation) v ↔ value s.sysfs path = some v := by
  unfold readTrimmed
  simp [Host.look, value]

/-- A bit is read when the file holds one. -/
theorem yields_readBit {path : PathBuf} {v : String} :
    Yields (host.look s) (readBit path) v ↔ value s.sysfs path = some v ∧ IsBit v := by
  simp only [readBit, yields_bind, yields_readTrimmed, yields_ite, yields_throw, yields_pure,
    and_false, false_or]
  constructor
  · rintro ⟨w, hw, hbit, rfl⟩
    refine ⟨hw, ?_⟩
    by_contra hno
    exact hbit ⟨fun h => hno (Or.inl h), fun h => hno (Or.inr h)⟩
  · rintro ⟨hv, hbit⟩
    refine ⟨v, hv, ?_, rfl⟩
    rintro ⟨h0, h1⟩
    exact hbit.elim h0 h1

@[simp] theorem mayYield_ofExcept {α : Type} {A : (op : HostOp) → HostAns op → Prop}
    {r : Except BenchError α} {a : α} : MayYield A (ofExcept r) a ↔ r = .ok a := Iff.rfl

@[simp] theorem mayYield_ioResult {α : Type} {A : (op : HostOp) → HostAns op → Prop}
    {operation : String} {r : Except IoError α} {a : α} :
    MayYield A (ioResult operation r) a ↔ r = .ok a := by
  cases r <;> simp [ioResult, Except.mapError]

/-- Answers that show the host's tree, and at each path one of the values that `V` allows. -/
structure Observes (host : Host) (V : PathBuf → String → Prop)
    (A : (op : HostOp) → HostAns op → Prop) : Prop where
  symlink : ∀ path b, A (.symlinkMetadata path) (.ok b) → host.symlink path = some b
  listing : ∀ path items, A (.readDir path) (.ok items) →
    ∃ names, items = names.map .ok ∧ host.listing path = some names
  content : ∀ path c, A (.readToString path) (.ok c) → V path (trim c)

section Observes

variable {V : PathBuf → String → Prop} {A : (op : HostOp) → HostAns op → Prop}

theorem observes_look (host : Host) (s : HostState) :
    Observes host (fun path v => value s.sysfs path = some v)
      (fun op x => host.look s op = some x) where
  symlink path b h := by simpa [Host.look] using h
  listing path items h := by
    obtain ⟨names, hnames, hitems⟩ := Option.map_eq_some_iff.mp h
    exact ⟨names, (Except.ok.inj hitems).symm, hnames⟩
  content path c h := by
    obtain ⟨c', hc', hcc⟩ := Option.map_eq_some_iff.mp h
    rw [value, hc', Except.ok.inj hcc]
    rfl

theorem Observes.rejectSymlink (hA : Observes host V A) {path : PathBuf} {u : Unit}
    (h : MayYield A (rejectSymlink path) u) : host.symlink path = some false := by
  simp only [Benchctl.rejectSymlink, mayYield_bind, mayYield_ask, mayYield_ioResult, mayYield_ite,
    mayYield_throw, mayYield_pure, and_false, false_or] at h
  obtain ⟨_, hx, b, rfl, hb, _⟩ := h
  rw [hA.symlink path b hx, Bool.eq_false_iff.mpr hb]

theorem Observes.readTrimmed (hA : Observes host V A) {path : PathBuf} {operation v : String}
    (h : MayYield A (readTrimmed path operation) v) : V path v := by
  simp only [Benchctl.readTrimmed, mayYield_bind, mayYield_ask, mayYield_ioResult,
    mayYield_pure] at h
  obtain ⟨_, hx, c, rfl, rfl⟩ := h
  exact hA.content path c hx

theorem Observes.readBit (hA : Observes host V A) {path : PathBuf} {v : String}
    (h : MayYield A (readBit path) v) : V path v ∧ IsBit v := by
  simp only [Benchctl.readBit, mayYield_bind, mayYield_ite, mayYield_throw, mayYield_pure,
    and_false, false_or] at h
  obtain ⟨w, hw, hbit, rfl⟩ := h
  refine ⟨hA.readTrimmed hw, ?_⟩
  by_contra hno
  exact hbit ⟨fun h0 => hno (Or.inl h0), fun h1 => hno (Or.inr h1)⟩

/-- An entry made from values that `V` allows. -/
structure Observed (V : PathBuf → String → Prop) (e : IdleEntry) : Prop where
  files : ∃ dir : PathBuf, e.disablePath = dir.join "disable" ∧ V (dir.join "name") e.name
  current : V e.disablePath e.original
  bit : IsBit e.original
  desired : e.desired = desiredValue e.name

/-- An entry as `inventory` makes it from the files of one state. -/
structure Reported (s : HostState) (e : IdleEntry) : Prop where
  files : ∃ dir : PathBuf, e.disablePath = dir.join "disable" ∧
    value s.sysfs (dir.join "name") = some e.name
  current : value s.sysfs e.disablePath = some e.original
  bit : IsBit e.original
  desired : e.desired = desiredValue e.name

/-- The entry with the value that the file has now. -/
def IdleEntry.reread (s : HostState) (e : IdleEntry) : IdleEntry :=
  { e with original := (value s.sysfs e.disablePath).getD "" }

/-- Writes that leave the names of states alone and every listed value a bit. -/
structure Rewritten (s s' : HostState) (es : List IdleEntry) : Prop where
  names : ∀ dir : PathBuf, value s'.sysfs (dir.join "name") = value s.sysfs (dir.join "name")
  bits : ∀ e ∈ es, ∃ v, value s'.sysfs e.disablePath = some v ∧ IsBit v

/-- A state with the names that were observed and a bit at every listed entry. -/
structure Rereadable (V : PathBuf → String → Prop) (s' : HostState) (es : List IdleEntry) :
    Prop where
  names : ∀ (dir : PathBuf) v, V (dir.join "name") v → value s'.sysfs (dir.join "name") = some v
  bits : ∀ e ∈ es, ∃ v, value s'.sysfs e.disablePath = some v ∧ IsBit v

theorem Rereadable.sub {es' : List IdleEntry} (h : Rereadable V s' es) (hes : es' ⊆ es) :
    Rereadable V s' es' := ⟨h.names, fun e he => h.bits e (hes he)⟩

theorem Rewritten.rereadable (h : Rewritten s s' es) :
    Rereadable (fun path v => value s.sysfs path = some v) s' es :=
  ⟨fun dir _ hv => (h.names dir).trans hv, h.bits⟩

/-- An entry of an inventory has been observed. -/
theorem inventoryItem_observed (hA : Observes host V A) {cpu : ℕ} {root : PathBuf}
    {fileName : String} {e : IdleEntry}
    (h : MayYield A (inventoryItem cpu root fileName) (some e)) :
    e.cpu = cpu ∧ e.disablePath = (root.join fileName).join "disable" ∧ Observed V e := by
  unfold inventoryItem at h
  split at h
  · simp at h
  · split at h
    · simp at h
    · simp only [mayYield_bind, mayYield_pure, Option.some.injEq] at h
      obtain ⟨_, _, _, _, _, _, name, hname, original, hcur, rfl⟩ := h
      obtain ⟨hcur, hbit⟩ := hA.readBit hcur
      exact ⟨rfl, rfl, ⟨_, rfl, hA.readTrimmed hname⟩, hcur, hbit, rfl⟩

/-- An item that was inventoried is found again on a tree that shows the same files. -/
theorem inventoryItem_reread (hA : Observes host V A) {cpu : ℕ} {root : PathBuf}
    {fileName : String} {r : Option IdleEntry}
    (h : MayYield A (inventoryItem cpu root fileName) r) (hw : Rereadable V s' r.toList) :
    Yields (host.look s') (inventoryItem cpu root fileName) (r.map (·.reread s')) := by
  unfold inventoryItem at h ⊢
  split at h
  · simp only [mayYield_pure] at h
    subst h
    simp
  · split at h
    · simp at h
    · simp only [mayYield_bind, mayYield_pure] at h
      simp only [yields_bind, yields_rejectSymlink, yields_readTrimmed, yields_readBit, yields_pure]
      obtain ⟨_, h₁, _, h₂, _, h₃, name, hname, original, _, rfl⟩ := h
      obtain ⟨v, hv, hbit⟩ := hw.bits _ (List.mem_singleton.mpr rfl)
      refine ⟨(), hA.rejectSymlink h₁, (), hA.rejectSymlink h₂, (), hA.rejectSymlink h₃, name,
        hw.names _ _ (hA.readTrimmed hname), v, ⟨hv, hbit⟩, ?_⟩
      simp [IdleEntry.reread, hv]

def CpuScan.reread (s : HostState) (scan : CpuScan) : CpuScan :=
  { scan with entries := scan.entries.map (·.reread s) }

theorem CpuScan.push_reread (s : HostState) (scan : CpuScan) (e : IdleEntry) :
    (scan.push e).reread s = (scan.reread s).push (e.reread s) := by
  unfold CpuScan.push CpuScan.reread
  rw [List.map_append]
  rfl

/-- What one more directory adds to a scan. -/
theorem inventoryItems_cons {cpu : ℕ} {root : PathBuf} {item : Except IoError String}
    {rest : List (Except IoError String)} {scan scan' : CpuScan} :
    MayYield A (inventoryItems cpu root (item :: rest) scan) scan' ↔
      ∃ fileName, item = .ok fileName ∧
        ∃ r, MayYield A (inventoryItem cpu root fileName) r ∧
          MayYield A (inventoryItems cpu root rest (r.elim scan scan.push)) scan' := by
  simp only [inventoryItems, mayYield_bind, mayYield_ioResult]
  refine exists_congr fun fileName => and_congr_right fun _ => exists_congr fun r =>
    and_congr_right fun _ => ?_
  cases r <;> rfl

/-- The entries of a scan belong to the listed directories, in their order. -/
theorem inventoryItems_observed (hA : Observes host V A) {cpu : ℕ} {root : PathBuf}
    {names : List String} {scan scan' : CpuScan}
    (h : MayYield A (inventoryItems cpu root (names.map .ok) scan) scan') :
    ∃ es, scan'.entries = scan.entries ++ es ∧ (∀ e ∈ es, e.cpu = cpu ∧ Observed V e) ∧
      (es.map IdleEntry.disablePath).Sublist
        (names.map fun name => (root.join name).join "disable") := by
  induction names generalizing scan with
  | nil =>
    have h : scan = scan' := mayYield_pure.mp h
    subst h
    exact ⟨[], (List.append_nil _).symm, fun _ he => (nomatch he), .slnil⟩
  | cons name rest ih =>
    obtain ⟨fileName, hname, r, hr, h⟩ := inventoryItems_cons.mp h
    cases hname
    obtain ⟨es, hes, hall, hsub⟩ := ih h
    cases r with
    | none => exact ⟨es, hes, hall, hsub.cons _⟩
    | some e =>
      obtain ⟨hcpu, hpath, hobs⟩ := inventoryItem_observed hA hr
      refine ⟨e :: es, ?_, List.forall_mem_cons.mpr ⟨⟨hcpu, hobs⟩, hall⟩, ?_⟩
      · rw [hes, Option.elim, CpuScan.push, List.append_assoc, List.singleton_append]
      · rw [List.map_cons, List.map_cons, hpath]
        exact hsub.cons_cons _

/-- The scan of a processor is found again, item by item. -/
theorem inventoryItems_reread (hA : Observes host V A) {cpu : ℕ} {root : PathBuf}
    {names : List String} {scan scan' : CpuScan}
    (h : MayYield A (inventoryItems cpu root (names.map .ok) scan) scan')
    (hw : Rereadable V s' scan'.entries) :
    Yields (host.look s') (inventoryItems cpu root (names.map .ok) (scan.reread s'))
      (scan'.reread s') := by
  induction names generalizing scan with
  | nil =>
    have h : scan = scan' := mayYield_pure.mp h
    subst h
    exact yields_pure.mpr rfl
  | cons name rest ih =>
    obtain ⟨fileName, hname, r, hr, h⟩ := inventoryItems_cons.mp h
    cases hname
    rw [List.map_cons, yields_iff, inventoryItems_cons]
    simp only [← yields_iff]
    cases r with
    | none =>
      refine ⟨name, rfl, none, ?_, ih h⟩
      exact inventoryItem_reread (r := none) hA hr (hw.sub (List.nil_subset _))
    | some e =>
      obtain ⟨es, hes, _⟩ := inventoryItems_observed hA h
      have he : e ∈ scan'.entries := by
        rw [hes]
        exact List.mem_append_left _ (List.mem_append_right _ (List.mem_singleton.mpr rfl))
      refine ⟨name, rfl, some (e.reread s'), ?_, ?_⟩
      · apply inventoryItem_reread (r := some e) hA hr
        exact hw.sub fun e' he' => List.mem_singleton.mp he' ▸ he
      · have hrest := ih h
        rw [Option.elim, CpuScan.push_reread] at hrest
        exact hrest

/-- What the inventory of one CPU has found. -/
theorem mayYield_inventoryCpu (hA : Observes host V A) {sysfsRoot : PathBuf} {cpu : ℕ}
    {es : List IdleEntry} (h : MayYield A (inventoryCpu sysfsRoot cpu) es) :
    host.symlink (cpuRoot sysfsRoot cpu) = some false ∧
      host.symlink ((cpuRoot sysfsRoot cpu).join "cpuidle") = some false ∧
      ∃ names, host.listing ((cpuRoot sysfsRoot cpu).join "cpuidle") = some names ∧
        ∃ scan, MayYield A (inventoryItems cpu ((cpuRoot sysfsRoot cpu).join "cpuidle")
            (names.map .ok) ⟨0, 0, []⟩) scan ∧
          ¬ (scan.entries.isEmpty ∨ scan.pollCount ≠ 1 ∨ scan.c1Count ≠ 1) ∧
          scan.entries.insertionSort (fun a b => a.state ≤ b.state) = es := by
  simp only [inventoryCpu, mayYield_bind, mayYield_ask, mayYield_ioResult, mayYield_ite,
    mayYield_throw, mayYield_pure, and_false, false_or] at h
  obtain ⟨_, h₁, _, h₂, _, hx, items, rfl, scan, hscan, hok, hes⟩ := h
  obtain ⟨names, rfl, hnames⟩ := hA.listing _ _ hx
  exact ⟨hA.rejectSymlink h₁, hA.rejectSymlink h₂, names, hnames, scan, hscan, hok, hes⟩

/-- What is read of a processor without symlinks is its sorted scan. -/
theorem yields_inventoryCpu {sysfsRoot : PathBuf} {cpu : ℕ} {names : List String} {scan : CpuScan}
    (h₁ : host.symlink (cpuRoot sysfsRoot cpu) = some false)
    (h₂ : host.symlink ((cpuRoot sysfsRoot cpu).join "cpuidle") = some false)
    (hnames : host.listing ((cpuRoot sysfsRoot cpu).join "cpuidle") = some names)
    (hscan : Yields (host.look s) (inventoryItems cpu ((cpuRoot sysfsRoot cpu).join "cpuidle")
      (names.map .ok) ⟨0, 0, []⟩) scan)
    (hok : ¬ (scan.entries.isEmpty ∨ scan.pollCount ≠ 1 ∨ scan.c1Count ≠ 1)) :
    Yields (host.look s) (inventoryCpu sysfsRoot cpu)
      (scan.entries.insertionSort fun a b => a.state ≤ b.state) := by
  simp only [inventoryCpu, yields_bind, yields_rejectSymlink, yields_ask, yields_ioResult,
    yields_ite, yields_throw, yields_pure, and_false, false_or, Host.look, Option.map_eq_some_iff]
  exact ⟨(), h₁, (), h₂, _, ⟨names, hnames, rfl⟩, _, rfl, scan, hscan, hok, rfl⟩

/-- The entries of a processor are observed, and each belongs to a directory of its listing. -/
theorem inventoryCpu_observed (hA : Observes host V A) {sysfsRoot : PathBuf} {cpu : ℕ}
    {es : List IdleEntry} (h : MayYield A (inventoryCpu sysfsRoot cpu) es) :
    es ≠ [] ∧ (∀ e ∈ es, e.cpu = cpu ∧ Observed V e) ∧
      ∃ names, host.listing ((cpuRoot sysfsRoot cpu).join "cpuidle") = some names ∧
        (es.map IdleEntry.disablePath).Subperm (names.map fun name =>
          (((cpuRoot sysfsRoot cpu).join "cpuidle").join name).join "disable") := by
  obtain ⟨_, _, names, hnames, scan, hscan, hok, rfl⟩ := mayYield_inventoryCpu hA h
  obtain ⟨es, hes, hall, hsub⟩ := inventoryItems_observed hA hscan
  rw [List.nil_append] at hes
  subst hes
  have hperm := List.perm_insertionSort (fun a b : IdleEntry => a.state ≤ b.state) scan.entries
  refine ⟨?_, fun e he => hall e (hperm.mem_iff.mp he), names, hnames, ?_⟩
  · intro hnil
    rw [hnil] at hperm
    exact hok (Or.inl (List.isEmpty_iff.mpr hperm.symm.eq_nil))
  · exact (hperm.map _).subperm.trans hsub.subperm

/-- The inventory of a processor is found again. -/
theorem inventoryCpu_reread (hA : Observes host V A) {sysfsRoot : PathBuf} {cpu : ℕ}
    {es : List IdleEntry} (h : MayYield A (inventoryCpu sysfsRoot cpu) es)
    (hw : Rereadable V s' es) :
    Yields (host.look s') (inventoryCpu sysfsRoot cpu) (es.map (·.reread s')) := by
  obtain ⟨h₁, h₂, names, hn, scan, hscan, hok, rfl⟩ := mayYield_inventoryCpu hA h
  have hw' : Rereadable V s' scan.entries :=
    hw.sub fun e he => (List.mem_insertionSort _).mpr he
  rw [show (scan.entries.insertionSort fun a b => a.state ≤ b.state).map (·.reread s') =
    (scan.reread s').entries.insertionSort fun a b => a.state ≤ b.state from
    List.map_insertionSort _ _ (IdleEntry.reread s') _ fun _ _ _ _ => Iff.rfl]
  apply yields_inventoryCpu h₁ h₂ hn (inventoryItems_reread hA hscan hw')
  simpa [CpuScan.reread] using hok

end Observes

theorem sortUnstable_pairwise (values : List ℕ) : (sortUnstable values).Pairwise (· ≤ ·) :=
  List.pairwise_insertionSort _ values

theorem sortUnstable_of_pairwise {values : List ℕ} (h : values.Pairwise (· ≤ ·)) :
    sortUnstable values = values :=
  h.insertionSort_eq

theorem sortUnstable_of_perm {values values' : List ℕ} (h : values.Perm values') :
    sortUnstable values = sortUnstable values' :=
  List.Perm.eq_of_pairwise' (sortUnstable_pairwise _) (sortUnstable_pairwise _)
    (((List.perm_insertionSort _ _).trans h).trans (List.perm_insertionSort _ _).symm)

theorem dedupFrom_of_notMem {c : ℕ} {values : List ℕ} (h : c ∉ values) :
    dedup.dedupFrom c values = dedup values := by
  cases values with
  | nil => rfl
  | cons a rest =>
    have ha : a ≠ c := fun hac => h (hac ▸ List.mem_cons_self)
    simp [dedup.dedupFrom, dedup, ha]

theorem dedup_replicate_append {c : ℕ} {values : List ℕ} (n : ℕ) (h : c ∉ values) :
    dedup (List.replicate (n + 1) c ++ values) = c :: dedup values := by
  have hfrom : dedup.dedupFrom c (List.replicate n c ++ values) = dedup values := by
    induction n with
    | zero => exact dedupFrom_of_notMem h
    | succ n ih =>
      rw [List.replicate_succ, List.cons_append, dedup.dedupFrom, if_pos rfl]
      exact ih
  rw [List.replicate_succ, List.cons_append, dedup, hfrom]

/-- What `dedup` leaves of a sorted list increases strictly. -/
theorem dedupFrom_pairwise {last : ℕ} {values : List ℕ} (h : values.Pairwise (· ≤ ·))
    (hlast : ∀ a ∈ values, last ≤ a) :
    (∀ a ∈ dedup.dedupFrom last values, last < a) ∧
      (dedup.dedupFrom last values).Pairwise (· < ·) := by
  induction values generalizing last with
  | nil => exact ⟨fun _ ha => (List.not_mem_nil ha).elim, List.Pairwise.nil⟩
  | cons a rest ih =>
    by_cases ha : a = last
    · rw [dedup.dedupFrom, if_pos ha]
      exact ih h.of_cons fun b hb => hlast b (List.mem_cons_of_mem _ hb)
    · have hlt : last < a := lt_of_le_of_ne (hlast a List.mem_cons_self) (Ne.symm ha)
      obtain ⟨hall, hpair⟩ := ih h.of_cons fun b hb => List.rel_of_pairwise_cons h hb
      rw [dedup.dedupFrom, if_neg ha]
      refine ⟨fun b hb => ?_, List.Pairwise.cons hall hpair⟩
      rcases List.mem_cons.mp hb with rfl | hb
      · exact hlt
      · exact hlt.trans (hall b hb)

theorem dedup_pairwise {values : List ℕ} (h : values.Pairwise (· ≤ ·)) :
    (dedup values).Pairwise (· < ·) := by
  cases values with
  | nil => exact .nil
  | cons a rest =>
    obtain ⟨hall, hpair⟩ := dedupFrom_pairwise h.of_cons fun b hb => List.rel_of_pairwise_cons h hb
    exact List.Pairwise.cons hall hpair

theorem PathBuf.join_inj {path path' : PathBuf} {name name' : String}
    (h : path.join name = path'.join name') : path = path' ∧ name = name' := by
  obtain ⟨habsolute, hcomponents⟩ := PathBuf.mk.inj h
  obtain ⟨hpath, hname⟩ := List.append_inj' hcomponents rfl
  refine ⟨?_, List.singleton_inj.mp hname⟩
  rw [show path = ⟨path.absolute, path.components⟩ from rfl, habsolute, hpath]

theorem cpuRoot_inj {sysfsRoot : PathBuf} {cpu cpu' : ℕ}
    (h : cpuRoot sysfsRoot cpu = cpuRoot sysfsRoot cpu') : cpu = cpu' := by
  have hname : toString cpu = toString cpu' :=
    (String.append_right_inj "cpu").mp (PathBuf.join_inj h).2
  have hdigits := congrArg (fun text : String => Nat.ofDigitChars 10 text.toList 0) hname
  simpa using hdigits

section Observes

variable {V : PathBuf → String → Prop} {A : (op : HostOp) → HostAns op → Prop}

theorem mayYield_inventory_cons {sysfsRoot : PathBuf} {cpu : ℕ} {cpus : List ℕ}
    {es : List IdleEntry} :
    MayYield A (inventory sysfsRoot (cpu :: cpus)) es ↔
      ∃ first, MayYield A (inventoryCpu sysfsRoot cpu) first ∧
        ∃ rest, MayYield A (inventory sysfsRoot cpus) rest ∧ first ++ rest = es := by
  simp only [inventory, mayYield_bind, mayYield_pure]

/-- Every entry of an inventory has been observed on one of the processors. -/
theorem inventory_observed (hA : Observes host V A) {sysfsRoot : PathBuf} {cpus : List ℕ}
    {es : List IdleEntry} (h : MayYield A (inventory sysfsRoot cpus) es) :
    ∀ e ∈ es, e.cpu ∈ cpus ∧ Observed V e := by
  induction cpus generalizing es with
  | nil =>
    cases (mayYield_pure.mp h : [] = es)
    exact fun _ he => nomatch he
  | cons cpu cpus ih =>
    obtain ⟨first, hfirst, rest, hrest, rfl⟩ := mayYield_inventory_cons.mp h
    intro e he
    rcases List.mem_append.mp he with he | he
    · obtain ⟨hcpu, hobs⟩ := (inventoryCpu_observed hA hfirst).2.1 e he
      exact ⟨hcpu ▸ List.mem_cons_self, hobs⟩
    · obtain ⟨hcpu, hobs⟩ := ih hrest e he
      exact ⟨List.mem_cons_of_mem _ hcpu, hobs⟩

/-- An inventory is found again on a tree that shows the same files, at their present values. -/
theorem inventory_reread (hA : Observes host V A) {sysfsRoot : PathBuf} {cpus : List ℕ}
    {es : List IdleEntry} (h : MayYield A (inventory sysfsRoot cpus) es)
    (hw : Rereadable V s' es) :
    Yields (host.look s') (inventory sysfsRoot cpus) (es.map (·.reread s')) := by
  induction cpus generalizing es with
  | nil =>
    cases (mayYield_pure.mp h : [] = es)
    exact yields_pure.mpr rfl
  | cons cpu cpus ih =>
    obtain ⟨first, hfirst, rest, hrest, rfl⟩ := mayYield_inventory_cons.mp h
    rw [yields_iff, mayYield_inventory_cons]
    simp only [← yields_iff]
    refine ⟨_, inventoryCpu_reread hA hfirst (hw.sub (List.subset_append_left ..)), _,
      ih hrest (hw.sub (List.subset_append_right ..)), ?_⟩
    exact (List.map_append ..).symm

/-- Directories that list a name once hold the states of distinct CPUs at distinct paths. -/
theorem inventory_nodup (hA : Observes host V A)
    (hlisting : ∀ path names, host.listing path = some names → names.Nodup)
    {sysfsRoot : PathBuf} {cpus : List ℕ} (hcpus : cpus.Nodup) {es : List IdleEntry}
    (h : MayYield A (inventory sysfsRoot cpus) es) : (es.map IdleEntry.disablePath).Nodup := by
  suffices hpaths : (es.map IdleEntry.disablePath).Nodup ∧
      ∀ path ∈ es.map IdleEntry.disablePath, ∃ cpu ∈ cpus, ∃ name,
        path = (((cpuRoot sysfsRoot cpu).join "cpuidle").join name).join "disable" from hpaths.1
  induction cpus generalizing es with
  | nil =>
    cases (mayYield_pure.mp h : [] = es)
    exact ⟨.nil, fun _ hpath => nomatch hpath⟩
  | cons cpu cpus ih =>
    obtain ⟨first, hfirst, rest, hrest, rfl⟩ := mayYield_inventory_cons.mp h
    obtain ⟨hcpu, hcpus⟩ := List.nodup_cons.mp hcpus
    obtain ⟨hrestNodup, hrestPaths⟩ := ih hcpus hrest
    obtain ⟨_, _, names, hnames, hsub⟩ := inventoryCpu_observed hA hfirst
    have hfirstPaths : ∀ path ∈ first.map IdleEntry.disablePath, ∃ name,
        path = (((cpuRoot sysfsRoot cpu).join "cpuidle").join name).join "disable" := by
      intro path hpath
      obtain ⟨name, _, hname⟩ := List.mem_map.mp (hsub.subset hpath)
      exact ⟨name, hname.symm⟩
    have hfirstNodup : (first.map IdleEntry.disablePath).Nodup := by
      obtain ⟨paths, hperm, hpaths⟩ := hsub
      apply hperm.nodup_iff.mp
      apply hpaths.nodup
      apply (hlisting _ _ hnames).map
      intro name name' hname
      exact (PathBuf.join_inj (PathBuf.join_inj hname).1).2
    rw [List.map_append]
    refine ⟨List.nodup_append.mpr ⟨hfirstNodup, hrestNodup, ?_⟩, fun path hpath => ?_⟩
    · rintro path hpath _ hpath' rfl
      obtain ⟨name, hname⟩ := hfirstPaths path hpath
      obtain ⟨cpu', hcpu', name', hname'⟩ := hrestPaths path hpath'
      rw [hname] at hname'
      obtain ⟨hroot, _⟩ := PathBuf.join_inj (PathBuf.join_inj (PathBuf.join_inj hname').1).1
      exact hcpu (cpuRoot_inj hroot ▸ hcpu')
    · rcases List.mem_append.mp hpath with hpath | hpath
      · obtain ⟨name, hname⟩ := hfirstPaths path hpath
        exact ⟨cpu, List.mem_cons_self, name, hname⟩
      · obtain ⟨cpu', hcpu', name, hname⟩ := hrestPaths path hpath
        exact ⟨cpu', List.mem_cons_of_mem _ hcpu', name, hname⟩
end Observes

theorem inventory_reported {sysfsRoot : PathBuf} {cpus : List ℕ} {es : List IdleEntry}
    (h : Yields (host.look s) (inventory sysfsRoot cpus) es) :
    ∀ e ∈ es, e.cpu ∈ cpus ∧ Reported s e := by
  intro e he
  obtain ⟨hcpu, hobs⟩ := inventory_observed (observes_look host s) (yields_iff.mp h) e he
  exact ⟨hcpu, hobs.files, hobs.current, hobs.bit, hobs.desired⟩

/-- The inventory depends on the values only. -/
theorem inventory_congr {sysfsRoot : PathBuf} {cpus : List ℕ} {es : List IdleEntry}
    (h : Yields (host.look s) (inventory sysfsRoot cpus) es)
    (hval : ∀ p, value s'.sysfs p = value s.sysfs p) :
    Yields (host.look s') (inventory sysfsRoot cpus) es := by
  have hrep := inventory_reported h
  have hw : Rewritten s s' es := ⟨fun dir => hval _, fun e he =>
    ⟨e.original, (hval _).trans (hrep e he).2.current, (hrep e he).2.bit⟩⟩
  have hreread := inventory_reread (observes_look host s) (yields_iff.mp h) hw.rereadable
  have hmap : es.map (·.reread s') = es := by
    refine (List.map_congr_left fun e he => ?_).trans (List.map_id es)
    rw [IdleEntry.reread, hval, (hrep e he).2.current, Option.getD_some, id]
  rwa [hmap] at hreread

/-- The CPUs of an inventory can be read back from its entries. -/
theorem inventory_cpus {V : PathBuf → String → Prop} {A : (op : HostOp) → HostAns op → Prop}
    (hA : Observes host V A) {sysfsRoot : PathBuf} {cpus : List ℕ} {es : List IdleEntry}
    (h : MayYield A (inventory sysfsRoot cpus) es) (hcpus : cpus.Pairwise (· < ·)) :
    dedup (sortUnstable (es.map IdleEntry.cpu)) = cpus := by
  suffices hsorted : (es.map IdleEntry.cpu).Pairwise (· ≤ ·) ∧ dedup (es.map IdleEntry.cpu) = cpus by
    rw [sortUnstable_of_pairwise hsorted.1]
    exact hsorted.2
  induction cpus generalizing es with
  | nil =>
    cases (mayYield_pure.mp h : [] = es)
    exact ⟨.nil, rfl⟩
  | cons cpu cpus ih =>
    obtain ⟨first, hfirst, rest, hrest, rfl⟩ := mayYield_inventory_cons.mp h
    obtain ⟨hne, hfirst, _⟩ := inventoryCpu_observed hA hfirst
    obtain ⟨hsorted, hdedup⟩ := ih hrest hcpus.of_cons
    have hlt : ∀ a ∈ rest.map IdleEntry.cpu, cpu < a := by
      intro a ha
      obtain ⟨e, he, rfl⟩ := List.mem_map.mp ha
      exact List.rel_of_pairwise_cons hcpus (inventory_observed hA hrest e he).1
    obtain ⟨n, hn⟩ : ∃ n, first.length = n + 1 :=
      Nat.exists_eq_succ_of_ne_zero fun h0 => hne (List.length_eq_zero_iff.mp h0)
    have hmap : first.map IdleEntry.cpu = List.replicate (n + 1) cpu := by
      rw [List.eq_replicate_iff, List.length_map, hn]
      refine ⟨rfl, fun a ha => ?_⟩
      obtain ⟨e, he, rfl⟩ := List.mem_map.mp ha
      exact (hfirst e he).1
    rw [List.map_append, hmap]
    constructor
    · refine List.pairwise_append.mpr ⟨?_, hsorted, fun a ha b hb => ?_⟩
      · exact List.pairwise_replicate.mpr (Or.inr le_rfl)
      · rw [List.eq_of_mem_replicate ha]
        exact (hlt b hb).le
    · rw [dedup_replicate_append n fun hmem => (hlt cpu hmem).false, hdedup]

/-- The test of `validate_inventory`. -/
theorem sameStates_iff {current recorded : List IdleEntry} :
    (¬ (current.length ≠ recorded.length ∨
      (current.zip recorded).any (fun pair => !pair.1.sameState pair.2))) ↔
    List.Forall₂ (fun c e => IdleEntry.sameState c e = true) current recorded := by
  rw [List.forall₂_iff_zip, not_or, not_not]
  refine and_congr_right fun _ => ?_
  simp only [List.any_eq_true, Bool.not_eq_true', not_exists, not_and, Bool.not_eq_false]
  exact ⟨fun h a b hab => h (a, b) hab, fun h pair hpair => h hpair⟩

theorem IdleEntry.sameState_iff {left right : IdleEntry} :
    left.sameState right = true ↔ left.cpu = right.cpu ∧ left.state = right.state ∧
      left.name = right.name ∧ left.disablePath = right.disablePath := by
  simp [sameState, and_assoc]

/-- The same states have the same paths. -/
theorem sameStates_paths {current recorded : List IdleEntry}
    (h : List.Forall₂ (fun c e => IdleEntry.sameState c e = true) current recorded) :
    (∀ c ∈ current, ∃ e ∈ recorded, e.disablePath = c.disablePath) ∧
      ∀ e ∈ recorded, ∃ c ∈ current, e.disablePath = c.disablePath := by
  have hpaths : current.map IdleEntry.disablePath = recorded.map IdleEntry.disablePath := by
    rw [← List.forall₂_eq_eq_eq, List.forall₂_map_left_iff, List.forall₂_map_right_iff]
    exact h.imp fun c e hce => (IdleEntry.sameState_iff.mp hce).2.2.2
  constructor
  · intro c hc
    exact List.mem_map.mp (hpaths ▸ List.mem_map_of_mem hc)
  · intro e he
    obtain ⟨c, hc, hce⟩ := List.mem_map.mp (hpaths.symm ▸ List.mem_map_of_mem he :
      e.disablePath ∈ current.map IdleEntry.disablePath)
    exact ⟨c, hc, hce.symm⟩

theorem mayYield_validateInventory {A : (op : HostOp) → HostAns op → Prop} {sysfsRoot : PathBuf}
    {es : List IdleEntry} :
    MayYield A (validateInventory sysfsRoot es) () ↔
    ∃ current, MayYield A (inventory sysfsRoot (dedup (sortUnstable (es.map IdleEntry.cpu)))) current ∧
      List.Forall₂ (fun c e => IdleEntry.sameState c e = true) current es := by
  simp only [validateInventory, mayYield_bind, mayYield_ite, mayYield_throw, mayYield_pure,
    and_false, false_or, and_true, sameStates_iff]

/-- An inventory is the current one wherever the names are the same and the values are bits. -/
theorem validateInventory_again {V : PathBuf → String → Prop}
    {A : (op : HostOp) → HostAns op → Prop} (hA : Observes host V A) {sysfsRoot : PathBuf}
    {cpus : List ℕ} {es : List IdleEntry} (h : MayYield A (inventory sysfsRoot cpus) es)
    (hcpus : cpus.Pairwise (· < ·)) (hw : Rereadable V s' es) :
    Yields (host.look s') (validateInventory sysfsRoot es) () := by
  rw [yields_iff, mayYield_validateInventory, inventory_cpus hA h hcpus]
  simp only [← yields_iff]
  refine ⟨_, inventory_reread hA h hw, ?_⟩
  rw [List.forall₂_map_left_iff, List.forall₂_same]
  exact fun e _ => IdleEntry.sameState_iff.mpr ⟨rfl, rfl, rfl, rfl⟩

/-- A journalled inventory is still the current one. -/
theorem validateInventory_reread {sysfsRoot : PathBuf} {cpus : List ℕ} {es : List IdleEntry}
    (h : Yields (host.look s) (inventory sysfsRoot cpus) es) (hcpus : cpus.Pairwise (· < ·))
    (hw : Rewritten s s' es) : Yields (host.look s') (validateInventory sysfsRoot es) () :=
  validateInventory_again (observes_look host s) (yields_iff.mp h) hcpus hw.rereadable

/-- What a validated journal says about the host. -/
theorem validateInventory_bits {sysfsRoot : PathBuf} {es : List IdleEntry}
    (h : Yields (host.look s) (validateInventory sysfsRoot es) ()) {e : IdleEntry} (he : e ∈ es) :
    (∃ dir : PathBuf, e.disablePath = dir.join "disable") ∧
      ∃ v, value s.sysfs e.disablePath = some v ∧ IsBit v := by
  obtain ⟨current, hcurrent, hsame⟩ := mayYield_validateInventory.mp (yields_iff.mp h)
  obtain ⟨c, hc, hpath⟩ := (sameStates_paths hsame).2 e he
  obtain ⟨_, hrep⟩ := inventory_reported (yields_iff.mpr hcurrent) c hc
  obtain ⟨dir, hdir, _⟩ := hrep.files
  rw [hpath]
  exact ⟨⟨dir, hdir⟩, _, hrep.current, hrep.bit⟩

/-- It stays valid while the names stay and the values are bits. -/
theorem validateInventory_rewritten {sysfsRoot : PathBuf} {es : List IdleEntry}
    (h : Yields (host.look s) (validateInventory sysfsRoot es) ()) (hw : Rewritten s s' es) :
    Yields (host.look s') (validateInventory sysfsRoot es) () := by
  obtain ⟨current, hcurrent, hsame⟩ := mayYield_validateInventory.mp (yields_iff.mp h)
  have hw' : Rewritten s s' current := by
    refine ⟨hw.names, fun c hc => ?_⟩
    obtain ⟨e, he, hpath⟩ := (sameStates_paths hsame).1 c hc
    rw [← hpath]
    exact hw.bits e he
  rw [yields_iff, mayYield_validateInventory]
  simp only [← yields_iff]
  refine ⟨_, inventory_reread (observes_look host s) hcurrent hw'.rereadable, ?_⟩
  exact List.forall₂_map_left_iff.mpr (hsame.imp fun c e hce => hce)

end Snoozer.Benchctl
