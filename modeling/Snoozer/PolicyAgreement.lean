import Snoozer.CrashRecovery
import Snoozer.Topology

/-! `read_cpuidle` and `validate_cpuidle` of `benches/support/platform.rs`, and their agreement with
the inventory of the coordinator: the benchmark reads the same tree, but folds the case of names. -/
namespace Snoozer.WakeLatency
open Benchctl (PathBuf IdleEntry Host HostState trim value cpuRoot desiredValue IsBit Bench)
open Interactive Fallible Results

/-- The files under the sysfs root; no answer is an I/O error. -/
structure SysfsTree where
  isDir : PathBuf → Bool
  readDir : PathBuf → Option (List String)
  readToString : PathBuf → Option String

structure CpuIdleState where
  cpu : ℕ
  name : String
  disabled : Bool
  deriving DecidableEq, Repr

/-- An I/O error carries the path that could not be read. -/
inductive CpuIdleError where
  | io (path : PathBuf)
  | noDirectory (cpu : ℕ)
  | invalidDisable (cpu : ℕ) (name value : String)
  | notExact (cpu : ℕ)
  | mustBeEnabled (cpu : ℕ) (name : String)
  | onlyExact (cpu : ℕ) (name : String)
  deriving DecidableEq, Repr

/-- `debug` is the quoting of the format `{:?}`, `ioError` the text of the system's error. -/
def CpuIdleError.display (debug : String → String) (ioError : PathBuf → String) :
    CpuIdleError → String
  | io path => ioError path
  | noDirectory cpu => s!"CPU {cpu} has no cpuidle sysfs directory"
  | invalidDisable cpu name value =>
    s!"CPU {cpu} state {name} has invalid disable value {debug value}"
  | notExact cpu => s!"CPU {cpu} must expose exactly one POLL and one exact CPU C1 state"
  | mustBeEnabled cpu name => s!"CPU {cpu}: exact {name} must be enabled"
  | onlyExact cpu name => s!"CPU {cpu}: {name} is enabled; only exact POLL/CPU C1 are allowed"

def toAsciiUppercase (text : String) : String := String.ofList (text.toList.map Char.toUpper)

def readTrimmed (tree : SysfsTree) (path : PathBuf) : Except CpuIdleError String :=
  match tree.readToString path with
  | none => .error (.io path)
  | some contents => .ok (trim contents)

/-- `u8::saturating_add(1)`. -/
def saturatingIncrement (count : ℕ) : ℕ := min (count + 1) 255

/-- What the loop over one CPU's states accumulates. -/
structure CpuIdleScan where
  exactPoll : ℕ
  exactC1 : ℕ
  states : List CpuIdleState
  deriving DecidableEq, Repr

def CpuIdleScan.push (scan : CpuIdleScan) (state : CpuIdleState) : CpuIdleScan where
  exactPoll := if state.name = "POLL" then saturatingIncrement scan.exactPoll else scan.exactPoll
  exactC1 := if state.name = "C1" then saturatingIncrement scan.exactC1 else scan.exactC1
  states := scan.states ++ [state]

def parseDisable (cpu : ℕ) (name value : String) : Except CpuIdleError Bool :=
  if value = "0" then .ok false
  else if value = "1" then .ok true
  else .error (.invalidDisable cpu name value)

/-- One entry of the directory; all but the directories of states are skipped. -/
def scanEntry (tree : SysfsTree) (cpu : ℕ) (cpuidle : PathBuf) (scan : CpuIdleScan)
    (fileName : String) : Except CpuIdleError CpuIdleScan :=
  let path := cpuidle.join fileName
  if !tree.isDir path || !"state".toList.isPrefixOf fileName.toList then .ok scan
  else do
    let name ← readTrimmed tree (path.join "name")
    let name := toAsciiUppercase name
    let contents ← readTrimmed tree (path.join "disable")
    let disabled ← parseDisable cpu name contents
    return scan.push ⟨cpu, name, disabled⟩

def readCpu (tree : SysfsTree) (sysfsRoot : PathBuf) (cpu : ℕ) :
    Except CpuIdleError (List CpuIdleState) :=
  let cpuidle := (cpuRoot sysfsRoot cpu).join "cpuidle"
  if !tree.isDir cpuidle then .error (.noDirectory cpu)
  else
    match tree.readDir cpuidle with
    | none => .error (.io cpuidle)
    | some names => do
      let scan ← names.foldlM (scanEntry tree cpu cpuidle) ⟨0, 0, []⟩
      if scan.exactPoll ≠ 1 ∨ scan.exactC1 ≠ 1 then throw (.notExact cpu)
      else return scan.states

def readCpuidle (tree : SysfsTree) (sysfsRoot : PathBuf) :
    List ℕ → Except CpuIdleError (List CpuIdleState)
  | [] => .ok []
  | cpu :: rest => do
    let states ← readCpu tree sysfsRoot cpu
    let others ← readCpuidle tree sysfsRoot rest
    return states ++ others

def checkState (state : CpuIdleState) : Except CpuIdleError Unit :=
  if state.name = "POLL" ∨ state.name = "C1" then
    if state.disabled then .error (.mustBeEnabled state.cpu state.name) else .ok ()
  else if !state.disabled then .error (.onlyExact state.cpu state.name)
  else .ok ()

def validateCpuidle (tree : SysfsTree) (sysfsRoot : PathBuf) (topology : Topology) :
    Except CpuIdleError (List CpuIdleState) := do
  let states ← readCpuidle tree sysfsRoot topology.selected
  states.forM checkState
  return states

/-- The tree that the coordinator works on, as the benchmark reads it. -/
def hostTree (host : Host) (isDir : PathBuf → Bool) (s : HostState) : SysfsTree where
  isDir := isDir
  readDir := host.listing
  readToString := s.sysfs

/-- What holds a file or can be listed is a directory. -/
structure SysfsTree.Consistent (tree : SysfsTree) : Prop where
  file : ∀ (dir : PathBuf) (name contents : String),
    tree.readToString (dir.join name) = some contents → tree.isDir dir = true
  listed : ∀ (dir : PathBuf) (names : List String),
    tree.readDir dir = some names → tree.isDir dir = true

/-- An entry of the inventory, as the benchmark sees it. -/
def stateOf (entry : IdleEntry) : CpuIdleState :=
  ⟨entry.cpu, toAsciiUppercase entry.name, decide (entry.original = "1")⟩

def CpuIdleScan.pushEntry (scan : CpuIdleScan) (entry : IdleEntry) : CpuIdleScan :=
  scan.push (stateOf entry)

section Scan

variable {host : Host} {isDir : PathBuf → Bool} {s : HostState}

theorem readTrimmed_hostTree {path : PathBuf} {contents : String}
    (h : value s.sysfs path = some contents) :
    readTrimmed (hostTree host isDir s) path = .ok contents := by
  obtain ⟨raw, hraw, htrim⟩ := Option.map_eq_some_iff.mp h
  have hread : (hostTree host isDir s).readToString path = some raw := hraw
  rw [readTrimmed, hread]
  exact congrArg Except.ok htrim

theorem parseDisable_bit {cpu : ℕ} {name v : String} (h : IsBit v) :
    parseDisable cpu name v = .ok (decide (v = "1")) := by
  rcases h with rfl | rfl
  · rfl
  · rfl

/-- What the coordinator reads of one directory the benchmark reads too. -/
theorem scanEntry_eq (htree : (hostTree host isDir s).Consistent) {cpu : ℕ} {root : PathBuf}
    {fileName : String} {r : Option IdleEntry} (scan : CpuIdleScan)
    (h : Yields (host.look s) (Benchctl.inventoryItem cpu root fileName) r) :
    scanEntry (hostTree host isDir s) cpu root scan fileName =
      .ok (r.elim scan scan.pushEntry) := by
  unfold Benchctl.inventoryItem at h
  by_cases hprefix : "state".toList.isPrefixOf fileName.toList = true
  · have hstrip : Benchctl.stripPrefix "state" fileName =
        some (String.ofList (fileName.toList.drop "state".length)) := by
      rw [Benchctl.stripPrefix, if_pos hprefix]
    rw [hstrip] at h
    simp only at h
    split at h
    · simp at h
    · simp only [yields_bind, yields_pure, Benchctl.yields_rejectSymlink,
        Benchctl.yields_readTrimmed, Benchctl.yields_readBit] at h
      obtain ⟨_, _, _, _, _, _, name, hname, original, ⟨hvalue, hbit⟩, hr⟩ := h
      obtain ⟨contents, hcontents, _⟩ := Option.map_eq_some_iff.mp hname
      have hdir : (hostTree host isDir s).isDir (root.join fileName) = true :=
        htree.file _ _ _ hcontents
      rw [scanEntry]
      simp only [hdir, hprefix, Bool.not_true, Bool.or_self, Bool.false_eq_true, if_false,
        readTrimmed_hostTree hname, readTrimmed_hostTree hvalue]
      change (parseDisable cpu (toAsciiUppercase name) original).bind _ = _
      rw [parseDisable_bit hbit, ← hr]
      rfl
  · have hstrip : Benchctl.stripPrefix "state" fileName = none := by
      rw [Benchctl.stripPrefix, if_neg hprefix]
    rw [hstrip] at h
    have hr : none = r := yields_pure.mp h
    rw [← hr, scanEntry]
    simp only [Bool.eq_false_iff.mpr hprefix, Bool.not_false, Bool.or_true, if_true,
      Option.elim_none]

/-- By induction on the listing: both scans take the same entries. -/
theorem foldlM_scanEntry (htree : (hostTree host isDir s).Consistent) {cpu : ℕ} {root : PathBuf}
    {names : List String} {c c' : Benchctl.CpuScan} (scan : CpuIdleScan)
    (h : Yields (host.look s) (Benchctl.inventoryItems cpu root (names.map .ok) c) c') :
    ∃ es, c'.entries = c.entries ++ es ∧
      names.foldlM (scanEntry (hostTree host isDir s) cpu root) scan =
        .ok (es.foldl CpuIdleScan.pushEntry scan) := by
  induction names generalizing c scan with
  | nil =>
    have hc : c = c' := yields_pure.mp h
    exact ⟨[], by rw [hc, List.append_nil], rfl⟩
  | cons name rest ih =>
    obtain ⟨fileName, hname, r, hr, hrest⟩ := Benchctl.inventoryItems_cons.mp (yields_iff.mp h)
    have hname : name = fileName := Except.ok.inj hname
    rw [← hname] at hr
    have hentry := scanEntry_eq htree scan (yields_iff.mpr hr)
    rw [List.foldlM_cons, hentry]
    cases r with
    | none => exact ih scan (yields_iff.mpr hrest)
    | some e =>
      obtain ⟨es, hes, hfold⟩ := ih (scan.pushEntry e) (yields_iff.mpr hrest)
      refine ⟨e :: es, ?_, hfold⟩
      rw [hes, Option.elim, Benchctl.CpuScan.push, List.append_assoc, List.singleton_append]

end Scan

/-- The counts of a scan are those of its entries. -/
structure Counted (c : Benchctl.CpuScan) : Prop where
  poll : c.pollCount = c.entries.countP (·.name = "POLL")
  c1 : c.c1Count = c.entries.countP (·.name = "C1")

theorem Counted.push {c : Benchctl.CpuScan} (h : Counted c) (e : IdleEntry) :
    Counted (c.push e) := by
  constructor
  · rw [Benchctl.CpuScan.push, List.countP_append, List.countP_singleton, ← h.poll]
    by_cases hname : e.name = "POLL" <;> simp [hname]
  · rw [Benchctl.CpuScan.push, List.countP_append, List.countP_singleton, ← h.c1]
    by_cases hname : e.name = "C1" <;> simp [hname]

/-- The scan counts the entries of each policy that it has met. -/
theorem counted_inventoryItems {A : (op : Benchctl.HostOp) → Benchctl.HostAns op → Prop} {cpu : ℕ}
    {root : PathBuf} {names : List String} {c c' : Benchctl.CpuScan} (hc : Counted c)
    (h : MayYield A (Benchctl.inventoryItems cpu root (names.map .ok) c) c') : Counted c' := by
  induction names generalizing c with
  | nil =>
    have heq : c = c' := mayYield_pure.mp h
    rw [← heq]
    exact hc
  | cons name rest ih =>
    obtain ⟨fileName, _, r, _, hrest⟩ := Benchctl.inventoryItems_cons.mp h
    cases r with
    | none => exact ih hc hrest
    | some e => exact ih (hc.push e) hrest

theorem foldl_pushEntry_states (es : List IdleEntry) (scan : CpuIdleScan) :
    (es.foldl CpuIdleScan.pushEntry scan).states = scan.states ++ es.map stateOf := by
  induction es generalizing scan with
  | nil => exact (List.append_nil _).symm
  | cons e rest ih =>
    rw [List.foldl_cons, ih, List.map_cons, CpuIdleScan.pushEntry, CpuIdleScan.push,
      List.append_assoc, List.singleton_append]

/-- The saturating counters, from values that have not yet saturated or have. -/
theorem foldl_pushEntry_counts (es : List IdleEntry) (scan : CpuIdleScan)
    (hpoll : scan.exactPoll ≤ 255) (hc1 : scan.exactC1 ≤ 255) :
    (es.foldl CpuIdleScan.pushEntry scan).exactPoll =
        min (scan.exactPoll + es.countP (toAsciiUppercase ·.name = "POLL")) 255 ∧
      (es.foldl CpuIdleScan.pushEntry scan).exactC1 =
        min (scan.exactC1 + es.countP (toAsciiUppercase ·.name = "C1")) 255 := by
  induction es generalizing scan with
  | nil =>
    rw [List.foldl_nil, List.countP_nil, List.countP_nil]
    omega
  | cons e rest ih =>
    have hpush : (scan.pushEntry e).exactPoll =
          (if toAsciiUppercase e.name = "POLL" then saturatingIncrement scan.exactPoll
            else scan.exactPoll) ∧
        (scan.pushEntry e).exactC1 =
          (if toAsciiUppercase e.name = "C1" then saturatingIncrement scan.exactC1
            else scan.exactC1) := ⟨rfl, rfl⟩
    have hbounds : (scan.pushEntry e).exactPoll ≤ 255 ∧ (scan.pushEntry e).exactC1 ≤ 255 := by
      rw [hpush.1, hpush.2]
      unfold saturatingIncrement
      split <;> split <;> omega
    have hrest := ih (scan.pushEntry e) hbounds.1 hbounds.2
    rw [List.foldl_cons, hrest.1, hrest.2, hpush.1, hpush.2, List.countP_cons, List.countP_cons]
    unfold saturatingIncrement
    by_cases hp : toAsciiUppercase e.name = "POLL" <;>
      by_cases hc : toAsciiUppercase e.name = "C1" <;> simp [hp, hc] <;> omega

/-- A weaker test that counts as many holds where the stronger one does. -/
theorem countP_eq_iff {α : Type} {p q : α → Bool} {l : List α}
    (h : ∀ a ∈ l, p a = true → q a = true) :
    l.countP q = l.countP p ↔ ∀ a ∈ l, q a = true → p a = true := by
  induction l with
  | nil => exact iff_of_true rfl fun _ h => absurd h List.not_mem_nil
  | cons a rest ih =>
    rw [List.forall_mem_cons] at h
    have hle : rest.countP p ≤ rest.countP q :=
      List.countP_mono_left fun b hb => h.2 b hb
    rw [List.countP_cons, List.countP_cons, List.forall_mem_cons, ← ih h.2]
    have hhead := h.1
    by_cases hp : p a = true <;> by_cases hq : q a = true
    · simp [hp, hq]
    · exact absurd (hhead hp) hq
    · simp only [hp, hq, if_true]
      constructor
      · intro heq
        simp at heq
        omega
      · rintro ⟨himp, _⟩
        cases himp trivial
    · simp [hp, hq]

/-- A name that only case distinguishes from no policy name but itself. -/
def CaseExact (name : String) : Prop :=
  (toAsciiUppercase name = "POLL" → name = "POLL") ∧ (toAsciiUppercase name = "C1" → name = "C1")

instance (name : String) : Decidable (CaseExact name) := inferInstanceAs (Decidable (_ ∧ _))

theorem upper_policyNames {name : String} (h : name = "POLL" ∨ name = "C1") :
    toAsciiUppercase name = name := by
  rcases h with rfl | rfl <;> decide

/-- As many names are a policy's in upper case as exactly when each of those is written so. -/
theorem countP_upper {es : List IdleEntry} {policy : String}
    (hpolicy : policy = "POLL" ∨ policy = "C1") :
    es.countP (toAsciiUppercase ·.name = policy) = es.countP (·.name = policy) ↔
      ∀ e ∈ es, toAsciiUppercase e.name = policy → e.name = policy := by
  have hfold : ∀ e ∈ es, decide (e.name = policy) = true →
      decide (toAsciiUppercase e.name = policy) = true := by
    intro e _ h
    have hname := of_decide_eq_true h
    rw [hname, upper_policyNames hpolicy]
    exact decide_eq_true rfl
  rw [countP_eq_iff hfold]
  simp only [decide_eq_true_eq]

section Agreement

variable {host : Host} {isDir : PathBuf → Bool} {s : HostState} {sysfsRoot : PathBuf}
  {es : List IdleEntry}

/-- Where the inventory of a CPU succeeds, the benchmark reads the same states or, for a name that
differs from a policy name by case alone, refuses the CPU. -/
theorem readCpu_eq (htree : (hostTree host isDir s).Consistent) {cpu : ℕ}
    (h : Yields (host.look s) (Benchctl.inventoryCpu sysfsRoot cpu) es) :
    ∃ states, states.Perm (es.map stateOf) ∧
      readCpu (hostTree host isDir s) sysfsRoot cpu =
        if ∀ e ∈ es, CaseExact e.name then .ok states else .error (.notExact cpu) := by
  obtain ⟨_, _, names, hnames, c, hc, hok, hsort⟩ :=
    Benchctl.mayYield_inventoryCpu (Benchctl.observes_look host s) (yields_iff.mp h)
  obtain ⟨found, hfound, hfold⟩ := foldlM_scanEntry htree ⟨0, 0, []⟩ (yields_iff.mpr hc)
  rw [List.nil_append] at hfound
  have hcounted : Counted c := counted_inventoryItems ⟨rfl, rfl⟩ hc
  have hperm : es.Perm found := by
    rw [← hsort, hfound]
    exact List.perm_insertionSort _ found
  have hone : found.countP (·.name = "POLL") = 1 ∧ found.countP (·.name = "C1") = 1 := by
    rw [← hfound, ← hcounted.poll, ← hcounted.c1]
    rw [not_or, not_or, not_not, not_not] at hok
    exact hok.2
  refine ⟨found.map stateOf, hperm.symm.map stateOf, ?_⟩
  have hcounts := foldl_pushEntry_counts found ⟨0, 0, []⟩ (Nat.zero_le _) (Nat.zero_le _)
  have hstates := foldl_pushEntry_states found ⟨0, 0, []⟩
  have hexact : (¬ ((found.foldl CpuIdleScan.pushEntry ⟨0, 0, []⟩).exactPoll ≠ 1 ∨
      (found.foldl CpuIdleScan.pushEntry ⟨0, 0, []⟩).exactC1 ≠ 1)) ↔
        ∀ e ∈ es, CaseExact e.name := by
    have hpoll := @countP_upper found "POLL" (Or.inl rfl)
    have hc1 := @countP_upper found "C1" (Or.inr rfl)
    rw [hone.1] at hpoll
    rw [hone.2] at hc1
    have hsplit : (∀ e ∈ es, CaseExact e.name) ↔
        (∀ e ∈ found, toAsciiUppercase e.name = "POLL" → e.name = "POLL") ∧
          ∀ e ∈ found, toAsciiUppercase e.name = "C1" → e.name = "C1" := by
      constructor
      · intro hall
        exact ⟨fun e he => (hall e (hperm.mem_iff.mpr he)).1,
          fun e he => (hall e (hperm.mem_iff.mpr he)).2⟩
      · intro hall e he
        exact ⟨hall.1 e (hperm.mem_iff.mp he), hall.2 e (hperm.mem_iff.mp he)⟩
    rw [hsplit, ← hpoll, ← hc1, hcounts.1, hcounts.2]
    simp only [Nat.zero_add]
    omega
  have hdir : (hostTree host isDir s).isDir ((cpuRoot sysfsRoot cpu).join "cpuidle") = true :=
    htree.listed _ _ hnames
  have hread : (hostTree host isDir s).readDir ((cpuRoot sysfsRoot cpu).join "cpuidle") =
      some names := hnames
  rw [readCpu]
  simp only [hdir, Bool.not_true, Bool.false_eq_true, if_false, hread]
  rw [hfold]
  by_cases hall : ∀ e ∈ es, CaseExact e.name
  · rw [if_pos hall]
    have hno := hexact.mpr hall
    change (if _ then _ else _) = _
    rw [if_neg hno, hstates]
    rfl
  · rw [if_neg hall]
    have hyes := not_not.mp (mt hexact.mp hall)
    change (if _ then _ else _) = _
    rw [if_pos hyes]
    rfl

/-- The entries of one CPU are what the inventory found there. -/
theorem yields_filter_cpu {cpus : List ℕ} (hcpus : cpus.Nodup)
    (h : Yields (host.look s) (Benchctl.inventory sysfsRoot cpus) es) {cpu : ℕ} (hcpu : cpu ∈ cpus) :
    Yields (host.look s) (Benchctl.inventoryCpu sysfsRoot cpu) (es.filter (·.cpu = cpu)) := by
  induction cpus generalizing es with
  | nil => cases hcpu
  | cons first others ih =>
    obtain ⟨hfirst, hothers⟩ := List.nodup_cons.mp hcpus
    obtain ⟨firstEntries, hyield, rest, hrest, hes⟩ :=
      Benchctl.mayYield_inventory_cons.mp (yields_iff.mp h)
    have hobserved := Benchctl.observes_look host s
    have hin : ∀ e ∈ firstEntries, e.cpu = first := fun e he =>
      ((Benchctl.inventoryCpu_observed hobserved hyield).2.1 e he).1
    have hout : ∀ e ∈ rest, e.cpu ∈ others := fun e he =>
      (Benchctl.inventory_observed hobserved hrest e he).1
    rw [← hes, List.filter_append]
    rcases List.mem_cons.mp hcpu with heq | hmem
    · have hkeep : firstEntries.filter (·.cpu = cpu) = firstEntries := by
        rw [List.filter_eq_self]
        intro e he
        rw [hin e he, heq]
        exact decide_eq_true rfl
      have hdrop : rest.filter (·.cpu = cpu) = [] := by
        rw [List.filter_eq_nil_iff]
        intro e he hsame
        rw [heq] at hsame
        exact hfirst (of_decide_eq_true hsame ▸ hout e he)
      rw [hkeep, hdrop, List.append_nil, heq]
      exact yields_iff.mpr hyield
    · have hdrop : firstEntries.filter (·.cpu = cpu) = [] := by
        rw [List.filter_eq_nil_iff]
        intro e he hsame
        rw [hin e he] at hsame
        exact hfirst ((of_decide_eq_true hsame).symm ▸ hmem)
      rw [hdrop, List.nil_append]
      exact ih hothers (yields_iff.mpr hrest) hmem

/-- The states of the CPUs, in the order in which they are asked for. -/
def statesOn (es : List IdleEntry) (cpus : List ℕ) : List CpuIdleState :=
  cpus.flatMap fun cpu => (es.filter (·.cpu = cpu)).map stateOf

/-- Exactly written names are read by the benchmark, which then has the same states. -/
theorem readCpuidle_of_caseExact (htree : (hostTree host isDir s).Consistent) {cpus : List ℕ}
    (hcpus : cpus.Nodup) (h : Yields (host.look s) (Benchctl.inventory sysfsRoot cpus) es)
    {selected : List ℕ} (hselected : selected ⊆ cpus)
    (hexact : ∀ e ∈ es, e.cpu ∈ selected → CaseExact e.name) :
    ∃ states, readCpuidle (hostTree host isDir s) sysfsRoot selected = .ok states ∧
      states.Perm (statesOn es selected) := by
  induction selected with
  | nil => exact ⟨[], rfl, List.Perm.refl _⟩
  | cons cpu rest ih =>
    rw [List.cons_subset] at hselected
    obtain ⟨states, hperm, hread⟩ := readCpu_eq htree (yields_filter_cpu hcpus h hselected.1)
    have hfirst : ∀ e ∈ es.filter (·.cpu = cpu), CaseExact e.name := by
      intro e he
      rw [List.mem_filter, decide_eq_true_eq] at he
      exact hexact e he.1 (he.2 ▸ List.mem_cons_self)
    obtain ⟨others, hothers, hothersPerm⟩ :=
      ih hselected.2 fun e he hin => hexact e he (List.mem_cons_of_mem _ hin)
    rw [if_pos hfirst] at hread
    refine ⟨states ++ others, ?_, ?_⟩
    · rw [readCpuidle, hread, hothers]
      rfl
    · exact hperm.append hothersPerm

/-- Names that the benchmark reads are written exactly. -/
theorem caseExact_of_readCpuidle (htree : (hostTree host isDir s).Consistent) {cpus : List ℕ}
    (hcpus : cpus.Nodup) (h : Yields (host.look s) (Benchctl.inventory sysfsRoot cpus) es)
    {selected : List ℕ} (hselected : selected ⊆ cpus) {states : List CpuIdleState}
    (hread : readCpuidle (hostTree host isDir s) sysfsRoot selected = .ok states) :
    ∀ e ∈ es, e.cpu ∈ selected → CaseExact e.name := by
  induction selected generalizing states with
  | nil =>
    intro e _ hin
    cases hin
  | cons cpu rest ih =>
    rw [List.cons_subset] at hselected
    rw [readCpuidle, bind_eq_ok] at hread
    obtain ⟨first, hfirst, hrest⟩ := hread
    obtain ⟨others, hothers, _⟩ := bind_eq_ok.mp hrest
    intro e he hin
    rcases List.mem_cons.mp hin with heq | hmem
    · obtain ⟨_, _, heval⟩ := readCpu_eq htree (yields_filter_cpu hcpus h hselected.1)
      rw [hfirst] at heval
      by_cases hall : ∀ e ∈ es.filter (·.cpu = cpu), CaseExact e.name
      · apply hall e
        rw [List.mem_filter, decide_eq_true_eq]
        exact ⟨he, heq⟩
      · rw [if_neg hall] at heval
        cases heval
    · exact ih hselected.2 hothers e he hmem

/-- States pass the check when each of them does. -/
theorem forM_checkState {states : List CpuIdleState} :
    states.forM checkState = .ok () ↔ ∀ state ∈ states, checkState state = .ok () := by
  induction states with
  | nil => exact iff_of_true rfl fun _ h => absurd h List.not_mem_nil
  | cons state rest ih =>
    have hcons : (state :: rest).forM checkState =
        checkState state >>= fun _ => rest.forM checkState := rfl
    rw [hcons, List.forall_mem_cons, ← ih, bind_eq_ok]
    constructor
    · rintro ⟨_, hstate, hrest⟩
      exact ⟨hstate, hrest⟩
    · rintro ⟨hstate, hrest⟩
      exact ⟨(), hstate, hrest⟩

/-- A state at the value that the coordinator wants is one that the benchmark permits. -/
theorem checkState_stateOf {e : IdleEntry} (hname : CaseExact e.name)
    (hvalue : e.original = desiredValue e.name) : checkState (stateOf e) = .ok () := by
  have hpolicy : (toAsciiUppercase e.name = "POLL" ∨ toAsciiUppercase e.name = "C1") ↔
      (e.name = "POLL" ∨ e.name = "C1") := by
    constructor
    · rintro (h | h)
      · exact Or.inl (hname.1 h)
      · exact Or.inr (hname.2 h)
    · intro h
      rw [upper_policyNames h]
      exact h
  rw [checkState]
  simp only [stateOf, hpolicy, hvalue, desiredValue]
  by_cases h : e.name = "POLL" ∨ e.name = "C1"
  · simp [h]
  · simp [h]

/-- The benchmark accepts the applied states of a tree when their names are written exactly. -/
theorem validateCpuidle_iff (htree : (hostTree host isDir s).Consistent) {cpus : List ℕ}
    (hcpus : cpus.Nodup) (h : Yields (host.look s) (Benchctl.inventory sysfsRoot cpus) es)
    (hvalues : ∀ e ∈ es, e.original = desiredValue e.name) {topology : Topology}
    (hselected : topology.selected ⊆ cpus) :
    ((∃ states, validateCpuidle (hostTree host isDir s) sysfsRoot topology = .ok states) ↔
      ∀ e ∈ es, e.cpu ∈ topology.selected → CaseExact e.name) ∧
    ∀ states, validateCpuidle (hostTree host isDir s) sysfsRoot topology = .ok states →
      states.Perm (statesOn es topology.selected) := by
  -- what is accepted is what was read
  have hreads (states : List CpuIdleState)
      (hvalidate : validateCpuidle (hostTree host isDir s) sysfsRoot topology = .ok states) :
      readCpuidle (hostTree host isDir s) sysfsRoot topology.selected = .ok states := by
    rw [validateCpuidle, bind_eq_ok] at hvalidate
    obtain ⟨read, hread, hrest⟩ := hvalidate
    obtain ⟨_, _, hstates⟩ := bind_eq_ok.mp hrest
    rw [hread, pure_eq_ok.mp hstates]
  refine ⟨⟨?_, ?_⟩, ?_⟩
  · rintro ⟨states, hvalidate⟩
    exact caseExact_of_readCpuidle htree hcpus h hselected (hreads states hvalidate)
  · intro hexact
    obtain ⟨states, hread, hperm⟩ := readCpuidle_of_caseExact htree hcpus h hselected hexact
    refine ⟨states, ?_⟩
    have hcheck : states.forM checkState = .ok () := by
      rw [forM_checkState]
      intro state hstate
      obtain ⟨cpu, hcpu, hmem⟩ := List.mem_flatMap.mp (hperm.mem_iff.mp hstate)
      obtain ⟨e, he, rfl⟩ := List.mem_map.mp hmem
      rw [List.mem_filter, decide_eq_true_eq] at he
      exact checkState_stateOf (hexact e he.1 (he.2.symm ▸ hcpu)) (hvalues e he.1)
    rw [validateCpuidle, bind_eq_ok]
    exact ⟨states, hread, bind_eq_ok.mpr ⟨(), hcheck, rfl⟩⟩
  · intro states hvalidate
    have hread := hreads states hvalidate
    have hexact := caseExact_of_readCpuidle htree hcpus h hselected hread
    obtain ⟨others, hothers, hperm⟩ := readCpuidle_of_caseExact htree hcpus h hselected hexact
    rw [hread] at hothers
    rw [Except.ok.inj hothers]
    exact hperm

end Agreement

section Applying

variable {host : Host} {faults : Bool}

/-- The names are those of `base`, and the listed entries have their desired values. -/
structure Applied (base : HostState) (done : List IdleEntry) (s : HostState) : Prop where
  names : ∀ dir : PathBuf, value s.sysfs (dir.join "name") = value base.sysfs (dir.join "name")
  desired : ∀ e ∈ done, value s.sysfs e.disablePath = some e.desired

/-- Writing one more entry. -/
theorem Applied.write {base s : HostState} {done rest : List IdleEntry} {e : IdleEntry}
    (h : Applied base done s) (hpaths : ((done ++ e :: rest).map IdleEntry.disablePath).Nodup)
    (hfile : ∃ dir : PathBuf, e.disablePath = dir.join "disable") (hbit : IsBit e.desired) :
    Applied base (done ++ [e]) (s.setSysfs e.disablePath (some (e.desired ++ "\n"))) := by
  obtain ⟨dir, hdir⟩ := hfile
  constructor
  · intro other
    have hne : other.join "name" ≠ e.disablePath := by
      rw [hdir]
      intro heq
      exact absurd (Benchctl.PathBuf.join_inj heq).2 (by decide)
    rw [value, HostState.setSysfs_of_ne s hne]
    exact h.names other
  · intro e' he'
    rcases List.mem_append.mp he' with hold | hnew
    · have hne : e'.disablePath ≠ e.disablePath := by
        rw [List.map_append, List.map_cons, List.nodup_append] at hpaths
        exact hpaths.2.2 _ (List.mem_map_of_mem hold) _ List.mem_cons_self
      rw [value, HostState.setSysfs_of_ne s hne]
      exact h.desired e' hold
    · rw [List.mem_singleton.mp hnew, value, HostState.setSysfs_self, Option.map_some,
        Benchctl.trim_newline hbit]

/-- Applying writes the entries one by one and leaves the others. -/
theorem triple_applyEntries {base : HostState} {done rest : List IdleEntry}
    (hpaths : ((done ++ rest).map IdleEntry.disablePath).Nodup)
    (hfiles : ∀ e ∈ rest, ∃ dir : PathBuf, e.disablePath = dir.join "disable")
    (hbits : ∀ e ∈ rest, IsBit e.desired) :
    Triple (host.machine faults false) (fun _ => True) (Applied base done)
      (Benchctl.applyEntries rest) (fun _ => Applied base (done ++ rest)) (fun _ _ => True) := by
  have hM := host.closed faults
  induction rest generalizing done with
  | nil =>
    rw [List.append_nil]
    exact hM.triple_pure fun _ _ h => h
  | cons e rest ih =>
    have happend : done ++ e :: rest = (done ++ [e]) ++ rest := by
      rw [List.append_assoc, List.singleton_append]
    have hrest : Triple (host.machine faults false) (fun _ => True) (Applied base (done ++ [e]))
        (Benchctl.applyEntries rest) (fun _ => Applied base (done ++ e :: rest))
        (fun _ _ => True) := by
      rw [happend] at hpaths ⊢
      exact ih hpaths (fun e' he' => hfiles e' (List.mem_cons_of_mem _ he'))
        fun e' he' => hbits e' (List.mem_cons_of_mem _ he')
    refine hM.triple_bind ((Benchctl.triple_looks (Benchctl.looks_readBit _)).conseq
      (fun _ _ h => h) (fun _ _ _ h => h.1) fun _ _ _ _ => trivial) fun v => ?_
    refine triple_ite (fun _ => hM.triple_throw fun _ _ _ => trivial) fun _ => ?_
    refine hM.triple_bind ?_ fun _ => hrest
    refine triple_of_state fun s _ hs => ?_
    refine (Benchctl.triple_writeValue (hbits e List.mem_cons_self) trivial).conseq
      (fun _ _ h => h) ?_ fun _ _ _ _ => trivial
    intro _ s' _ hs'
    rw [hs']
    exact hs.write hpaths (hfiles e List.mem_cons_self) (hbits e List.mem_cons_self)

/-- Applying an inventory writes each of its entries. -/
theorem triple_apply {base : HostState} {root : PathBuf} {es : List IdleEntry}
    (hpaths : (es.map IdleEntry.disablePath).Nodup)
    (hfiles : ∀ e ∈ es, ∃ dir : PathBuf, e.disablePath = dir.join "disable")
    (hbits : ∀ e ∈ es, IsBit e.desired) :
    Triple (host.machine faults false) (fun _ => True) (· = base) (Benchctl.apply root es)
      (fun _ => Applied base es) (fun _ _ => True) := by
  refine (host.closed faults).triple_bind
    ((Benchctl.triple_looks (Benchctl.looks_validateInventory _ _)).conseq (fun _ _ h => h)
      (fun _ _ _ h => h.1) fun _ _ _ _ => trivial) fun _ => ?_
  have hentries := @triple_applyEntries host faults base [] es hpaths hfiles hbits
  rw [List.nil_append] at hentries
  refine hentries.pre ?_
  intro s _ hs
  rw [hs]
  refine ⟨fun _ => rfl, fun e he => ?_⟩
  cases he

end Applying

/-- The inventory and the application of the policy, as a run makes them. -/
def inventoryAndApply (sysfsRoot : PathBuf) (cpus : List ℕ) : Bench (List IdleEntry) := do
  let entries ← Benchctl.inventory sysfsRoot cpus
  Benchctl.apply sysfsRoot entries
  return entries

/-- An inventory is taken of the tree that it is then applied to. -/
theorem triple_inventoryAndApply {host : Host} {faults : Bool} {sysfsRoot : PathBuf}
    {cpus : List ℕ} (hcpus : cpus.Nodup)
    (hlisting : ∀ path names, host.listing path = some names → names.Nodup) (base : HostState) :
    Triple (host.machine faults false) (fun _ => True) (· = base)
      (inventoryAndApply sysfsRoot cpus)
      (fun es s => Yields (host.look base) (Benchctl.inventory sysfsRoot cpus) es ∧
        Applied base es s) (fun _ _ => True) := by
  have hM := host.closed faults
  refine hM.triple_bind ((Benchctl.triple_looks (Benchctl.looks_inventory _ _)).conseq
    (fun _ _ h => h) (fun _ _ _ h => h) fun _ _ _ _ => trivial) fun es => ?_
  refine triple_of_state fun s _ hs => ?_
  obtain ⟨hbase, hyields⟩ := hs
  have hobserved := Benchctl.inventory_reported hyields
  have hnodup := Benchctl.inventory_nodup (Benchctl.observes_look host s) hlisting hcpus
    (yields_iff.mp hyields)
  have hfiles : ∀ e ∈ es, ∃ dir : PathBuf, e.disablePath = dir.join "disable" := by
    intro e he
    obtain ⟨dir, hdir, _⟩ := (hobserved e he).2.files
    exact ⟨dir, hdir⟩
  have hbits : ∀ e ∈ es, IsBit e.desired := by
    intro e he
    rw [(hobserved e he).2.desired]
    exact Benchctl.isBit_desiredValue e.name
  rw [hbase] at hyields ⊢
  refine hM.triple_bind (triple_apply hnodup hfiles hbits) fun _ => ?_
  exact hM.triple_pure fun _ _ h => ⟨hyields, h⟩

/-- An inventory at its desired values is read again as it is. -/
theorem Applied.reread {host : Host} {sysfsRoot : PathBuf} {cpus : List ℕ}
    {es : List IdleEntry} {s s' : HostState} (h : Applied s es s')
    (hyields : Yields (host.look s) (Benchctl.inventory sysfsRoot cpus) es) :
    Yields (host.look s') (Benchctl.inventory sysfsRoot cpus) (es.map (·.reread s')) ∧
      ∀ e ∈ es, (e.reread s').original = e.desired ∧ e.desired = desiredValue e.name := by
  have hreported := Benchctl.inventory_reported hyields
  have hbits : ∀ e ∈ es, ∃ v, value s'.sysfs e.disablePath = some v ∧ IsBit v := by
    intro e he
    refine ⟨e.desired, h.desired e he, ?_⟩
    rw [(hreported e he).2.desired]
    exact Benchctl.isBit_desiredValue e.name
  have hrewritten : Benchctl.Rewritten s s' es := ⟨h.names, hbits⟩
  refine ⟨Benchctl.inventory_reread (Benchctl.observes_look host s) (yields_iff.mp hyields)
    hrewritten.rereadable, ?_⟩
  intro e he
  refine ⟨?_, (hreported e he).2.desired⟩
  rw [IdleEntry.reread, h.desired e he]
  rfl

/-- Where the coordinator's inventory and its application succeed on some CPUs and nobody else
writes the tree, the benchmark accepts exactly those choices of roles among the CPUs on which no
state's name differs from `POLL` or `C1` by case alone; and where it accepts it has seen the very
states of the inventory, each at the value that the coordinator gave it. -/
theorem policies_agree_iff (host : Host) (faults : Bool) {sysfsRoot : PathBuf} {cpus : List ℕ}
    {es : List IdleEntry} {s s' : HostState} {isDir : PathBuf → Bool} {topology : Topology}
    (hlisting : ∀ path names, host.listing path = some names → names.Nodup)
    (htree : (hostTree host isDir s').Consistent) (hcpus : cpus.Nodup)
    (hselected : topology.selected ⊆ cpus)
    (hrun : Reach (host.machine faults false) ((inventoryAndApply sysfsRoot cpus).run, s)
      (.ret (.ok es), s')) :
    ((∃ states, validateCpuidle (hostTree host isDir s') sysfsRoot topology = .ok states) ↔
      ∀ e ∈ es, e.cpu ∈ topology.selected → CaseExact e.name) ∧
    ∀ states, validateCpuidle (hostTree host isDir s') sysfsRoot topology = .ok states →
      states.Perm (topology.selected.flatMap fun cpu => (es.filter (·.cpu = cpu)).map fun e =>
        ⟨e.cpu, toAsciiUppercase e.name, decide (e.desired = "1")⟩) := by
  have hends := ((triple_inventoryAndApply hcpus hlisting s).returns trivial rfl hrun).2
  obtain ⟨hyields, happlied⟩ := hends
  obtain ⟨hreread, hdesired⟩ := happlied.reread hyields
  have hvalues : ∀ e ∈ es.map (·.reread s'), e.original = desiredValue e.name := by
    intro e he
    obtain ⟨e', he', rfl⟩ := List.mem_map.mp he
    exact (hdesired e' he').1.trans (hdesired e' he').2
  have hstates : statesOn (es.map (·.reread s')) topology.selected =
      topology.selected.flatMap fun cpu => (es.filter (·.cpu = cpu)).map fun e =>
        ⟨e.cpu, toAsciiUppercase e.name, decide (e.desired = "1")⟩ := by
    unfold statesOn
    congr 1
    ext1 cpu
    rw [List.filter_map, List.map_map]
    apply List.map_congr_left
    intro e he
    have hvalue := (hdesired e (List.mem_filter.mp he).1).1
    simp only [Function.comp, stateOf, hvalue]
    rfl
  obtain ⟨haccepts, hperm⟩ := validateCpuidle_iff htree hcpus hreread hvalues hselected
  rw [← hstates]
  refine ⟨haccepts.trans ?_, hperm⟩
  constructor
  · intro hall e he hcpu
    exact hall (e.reread s') (List.mem_map_of_mem he) hcpu
  · intro hall e he hcpu
    obtain ⟨e', he', rfl⟩ := List.mem_map.mp he
    exact hall e' he' hcpu

/-- All roles on the one CPU of the sample tree. -/
def sampleTopology : Topology := ⟨⟨0, 0, 0, 0⟩, ∅⟩

set_option maxRecDepth 4000 in
/-- The sample's tree is applied by the one program and accepted by the other. -/
theorem policies_agree_sample :
    ∃ es s', Reach (Benchctl.sampleHost.machine true false)
        ((inventoryAndApply Benchctl.sampleRoot [0]).run, .initial Benchctl.sampleSysfs)
        (.ret (.ok es), s') ∧
      ∃ states, validateCpuidle (hostTree Benchctl.sampleHost (fun _ => true) s')
        Benchctl.sampleRoot sampleTopology = .ok states ∧
        states.Perm (sampleTopology.selected.flatMap fun cpu =>
          (es.filter (·.cpu = cpu)).map fun e =>
            ⟨e.cpu, toAsciiUppercase e.name, decide (e.desired = "1")⟩) := by
  have hrun : ((inventoryAndApply Benchctl.sampleRoot [0]).run.run
      (Benchctl.sampleHost.serve "op") 400 (.initial Benchctl.sampleSysfs)).bind (fun result =>
        result.1.toOption.map fun es => es.all fun e => decide (CaseExact e.name)) =
      some true := by decide +kernel
  obtain ⟨⟨r, s'⟩, hserved, hresult⟩ := Option.bind_eq_some_iff.mp hrun
  obtain ⟨es, hes, hexact⟩ := Option.map_eq_some_iff.mp hresult
  have hr : r = .ok es := by
    cases r with
    | error e => cases hes
    | ok found => exact congrArg Except.ok (Option.some.inj hes)
  rw [hr] at hserved
  have hreach : Reach (Benchctl.sampleHost.machine true false)
      ((inventoryAndApply Benchctl.sampleRoot [0]).run, .initial Benchctl.sampleSysfs)
      (.ret (.ok es), s') :=
    (reach_of_run_inv (I := (HostState.Only · "op")) (Benchctl.sampleHost.serve_act "op") 400 _ _
      (fun _ _ => rfl) hserved).1
  have hselected : sampleTopology.selected ⊆ [0] := by decide
  have hlisting : ∀ path names, Benchctl.sampleHost.listing path = some names → names.Nodup := by
    intro path names h
    have hnames : (if path = Benchctl.sampleTree then some ["state0", "state1", "state2"]
        else none) = some names := h
    split at hnames
    · rw [← Option.some.inj hnames]
      decide
    · cases hnames
  have htree : (hostTree Benchctl.sampleHost (fun _ => true) s').Consistent :=
    ⟨fun _ _ _ _ => rfl, fun _ _ _ => rfl⟩
  obtain ⟨haccepts, hperm⟩ := policies_agree_iff Benchctl.sampleHost true hlisting htree
    (List.nodup_singleton 0) hselected hreach
  obtain ⟨states, hstates⟩ := haccepts.mpr
    fun e he _ => of_decide_eq_true (List.all_eq_true.mp hexact e he)
  exact ⟨es, s', hreach, states, hstates, hperm states hstates⟩

end Snoozer.WakeLatency
