import Snoozer.OperationRecord

/-! Every version that is ever stored of a journal, over any sequence of runs and
recoveries that stop anywhere: the transitions only grow, and their stages are words of
one small language. -/
namespace Snoozer.Benchctl
open Interactive Fallible Protocol InvocationPhase

/-- What an operation goes through before its first restoration. -/
def stageHeads : List (List Stage) :=
  [[.prepared], [.prepared, .applied], [.prepared, .applied, .workloadStarted],
    [.prepared, .applied, .workloadStarted, .recoverable],
    [.prepared, .applied, .workloadStarted, .workloadFinished, .draining]]

/-- Restorations that did not end. -/
def restoreAttempts : List (List Stage) :=
  [[.restoreConflict], [.restoring], [.restoring, .restoreConflict]]

/-- A head and any number of attempts. -/
def OpenWord (word : List Stage) : Prop :=
  ∃ head ∈ stageHeads, ∃ attempts : List (List Stage), (∀ a ∈ attempts, a ∈ restoreAttempts) ∧
    word = head ++ attempts.flatten

/-- An open word, or one closed by a restoration that ended. -/
def StageWord (word : List Stage) : Prop :=
  OpenWord word ∨ ∃ opened, OpenWord opened ∧ word = opened ++ [.restoring, .restored]

theorem openWord_head {head : List Stage} (h : head ∈ stageHeads) : OpenWord head :=
  ⟨head, h, [], by simp, by simp⟩

theorem OpenWord.attempt {word attempt : List Stage} (h : OpenWord word)
    (ha : attempt ∈ restoreAttempts) : OpenWord (word ++ attempt) := by
  obtain ⟨head, hhead, attempts, hattempts, rfl⟩ := h
  refine ⟨head, hhead, attempts ++ [attempt], ?_, by simp⟩
  intro a hmem
  rcases List.mem_append.mp hmem with hmem | hmem
  · exact hattempts a hmem
  · rw [List.mem_singleton.mp hmem]
    exact ha

theorem StageWord.opened {word : List Stage} (h : StageWord word)
    (hlast : word.getLast? ≠ some .restored) : OpenWord word := by
  rcases h with h | ⟨opened, _, rfl⟩
  · exact h
  · exact absurd (by simp) hlast

/-- A restoration under way is the last attempt of its word. -/
theorem OpenWord.close {word : List Stage} (h : OpenWord word)
    (hlast : word.getLast? = some .restoring) : StageWord (word ++ [.restored]) := by
  obtain ⟨head, hhead, attempts, hattempts, rfl⟩ := h
  rcases List.eq_nil_or_concat attempts with rfl | ⟨rest, last, rfl⟩
  · -- No head ends so.
    simp only [stageHeads, List.mem_cons, List.not_mem_nil, or_false] at hhead
    rcases hhead with rfl | rfl | rfl | rfl | rfl <;> simp at hlast
  · have hrest : ∀ a ∈ rest, a ∈ restoreAttempts := fun a ha => hattempts a (by simp [ha])
    have hmem : last ∈ restoreAttempts := hattempts last (by simp)
    simp only [restoreAttempts, List.mem_cons, List.not_mem_nil, or_false] at hmem
    rcases hmem with rfl | rfl | rfl
    · simp at hlast
    · exact Or.inr ⟨head ++ rest.flatten, ⟨head, hhead, rest, hrest, rfl⟩, by simp⟩
    · simp at hlast

/-- The host together with every version that was stored of each journal, oldest first. -/
structure Archive where
  host : HostState
  versions : String → List Journal

namespace Archive

def initial (contents : Sysfs) : Archive := ⟨.initial contents, fun _ => []⟩

def store (a : Archive) (id : String) (j : Journal) : Archive :=
  ⟨a.host.store id j, Function.update a.versions id (a.versions id ++ [j])⟩

@[simp] theorem store_versions_self (a : Archive) (id : String) (j : Journal) :
    (a.store id j).versions id = a.versions id ++ [j] := Function.update_self ..

theorem store_versions_of_ne (a : Archive) {id other : String} (h : other ≠ id) (j : Journal) :
    (a.store id j).versions other = a.versions other := Function.update_of_ne h ..

@[simp] theorem store_journals_self (a : Archive) (id : String) (j : Journal) :
    (a.store id j).host.journals id = some j := HostState.store_self ..

theorem store_journals_of_ne (a : Archive) {id other : String} (h : other ≠ id) (j : Journal) :
    (a.store id j).host.journals other = a.host.journals other := HostState.store_of_ne _ h _

@[simp] theorem store_entered (a : Archive) (id : String) (j : Journal) :
    (a.store id j).host.entered = a.host.entered := rfl

end Archive

/-- Every call that returns a result may fail, and a store that reports an error may have
happened. `path.exists()` reads an error as `false`; where it is `sighted` it meets none. A
runtime directory is only ever made by `coordinate`, so only an operation for which that was
entered has an outcome or a status there. -/
def archiveAct (host : Host) (sighted : Bool) :
    (op : HostOp) → Archive → HostAns op → Archive → Prop
  | .writeJournal id j, a, x, a' => a' = a.store id j ∨ x.isOk = false ∧ a' = a
  | .readOutcome id, a, x, a' => a' = a ∧ ∀ o, x = .ok (some o) → id ∈ a.host.entered
  | .readStatus id, a, x, a' => a' = a ∧ ∀ o, x = .ok (some o) → id ∈ a.host.entered
  | .journalExists id, a, x, a' => a' = a ∧ (x = true → (a.host.journals id).isSome) ∧
    (sighted = true → (a.host.journals id).isSome → x = true)
  | .stateRootExists, a, _, a' => a' = a
  | op, a, x, a' => host.act true op a.host x a'.host ∧ a'.versions = a.versions

/-- Somebody else may write the tree at any time. -/
def archiveMachine (host : Host) (sighted : Bool) : Machine HostOp HostAns Archive where
  act := archiveAct host sighted
  env a a' := ∃ path contents, a' = { a with host := a.host.setSysfs path contents }

/-- A run looks for the journal of its operation before it makes one. -/
def Invocation.looksUp : Invocation → Bool
  | .run _ => true
  | .recover _ => false

/-- One invocation up to any point of it, on whatever the host is by then. With `sighted` no
run takes an error of `path.exists()` for a missing journal. -/
def Archived (codec : Codec) (sysfsRoot stateRoot : PathBuf) (sighted : Bool) (a a' : Archive) :
    Prop :=
  ∃ (host : Host) (invocation : Invocation) (q : Prog HostOp HostAns (Except BenchError Unit)),
    Reach (archiveMachine host (sighted && invocation.looksUp))
      ((invocation.program codec sysfsRoot stateRoot).run, a) (q, a')

/-- Any sequence of invocations. -/
abbrev ArchivedSession (codec : Codec) (sysfsRoot stateRoot : PathBuf) (sighted : Bool) :
    Archive → Archive → Prop :=
  Relation.ReflTransGen (Archived codec sysfsRoot stateRoot sighted)

open Classical in
/-- A recovery may as well learn nothing from `path.exists()`. -/
noncomputable def recoveryProtocol : Protocol HostOp HostAns InvocationPhase where
  next φ op x :=
    if ∃ id, op = .journalExists id then some φ else invocationProtocol.next φ op x

noncomputable def Invocation.protocol : Invocation → Protocol HostOp HostAns InvocationPhase
  | .run _ => invocationProtocol
  | .recover _ => recoveryProtocol

theorem recovery_next {op : HostOp} (hop : ∀ id, op ≠ .journalExists id) (φ : InvocationPhase)
    (x : HostAns op) : recoveryProtocol.next φ op x = invocationProtocol.next φ op x :=
  if_neg fun ⟨id, h⟩ => hop id h

theorem recovery_lookup (id : String) (φ : InvocationPhase) (x : Bool) :
    recoveryProtocol.next φ (.journalExists id) x = some φ := if_pos ⟨id, rfl⟩

theorem protocol_next {invocation : Invocation} {op : HostOp} (hop : ∀ id, op ≠ .journalExists id)
    {φ : InvocationPhase} {x : HostAns op} :
    invocation.protocol.next φ op x = invocationProtocol.next φ op x := by
  cases invocation with
  | run request => rfl
  | recover operationId => exact recovery_next hop φ x

/-- The phase of a recovery keeps the record of what was done to the tree, too. -/
theorem protocol_tree {invocation : Invocation} {φ φ' : InvocationPhase} {op : HostOp}
    {x : HostAns op} (hn : invocation.protocol.next φ op x = some φ') :
    φ'.tree = φ.tree ++ (treeEvent ⟨op, x⟩).toList := by
  cases invocation with
  | run request => exact tree_next hn
  | recover operationId =>
    by_cases hlookup : ∃ id, op = .journalExists id
    · obtain ⟨id, rfl⟩ := hlookup
      cases (recovery_lookup id φ x).symm.trans hn
      exact (List.append_nil _).symm
    · exact tree_next ((if_neg hlookup).symm.trans hn)

section Recovery

variable {codec : Codec}

/-- Calls other than a lookup by name. -/
def HostOp.Sighted (op : HostOp) : Prop := ∀ id, op ≠ .journalExists id

theorem HostOp.sighted_of_quiet (op : HostOp) (h : op.quiet = true) : op.Sighted := by
  rintro id rfl
  cases h

theorem permits_sighted (id : String) (request : Request) :
    Permits codec HostOp.Sighted id request where
  quiet := HostOp.sighted_of_quiet
  write _ _ := fun _ h => nomatch h
  record _ _ _ := fun _ h => nomatch h

/-- A recovery looks a journal up only to select it. -/
theorem recovery_obeys (root : PathBuf) (operationId : Option String) :
    recoveryProtocol.Obeys (· = .initial) (recover codec root operationId) (fun _ _ => True)
      fun _ _ => True := by
  have hagree : ∀ op φ x, op.Sighted →
      recoveryProtocol.next φ op x = invocationProtocol.next φ op x :=
    fun op φ x hop => recovery_next hop φ x
  apply Obeys.bind (A := fun _ => InvocationPhase.Entered)
  · have hwithin : Within HostOp.Sighted (enterStateDirectory true) :=
      within_enterStateDirectory HostOp.sighted_of_quiet (fun _ _ h => nomatch h)
        (fun _ h => nomatch h) true
    exact (obeys_enterStateDirectory true).agree hagree hwithin
  intro _
  apply Obeys.bind (A := fun _ => InvocationPhase.Entered)
  · have hwithin : Within HostOp.Unnoticed (selectJournals codec operationId true) :=
      within_selectJournals HostOp.unnoticed_of_quiet true fun id _ => Or.inr (Or.inl ⟨id, rfl⟩)
    apply (obeys_within ?_ hwithin).conseq (fun _ h => h) (fun _ _ h => h) fun _ _ _ => trivial
    rintro op φ x hop hφ
    -- The lookup teaches nothing; every other call is one of a run, too.
    by_cases hlookup : ∃ id, op = .journalExists id
    · exact ⟨φ, if_pos hlookup, hφ⟩
    · rcases hop with hop | hop | ⟨path, bytes, rfl⟩
      · obtain ⟨φ', hn, hg⟩ := invocation_quiet op φ x hop
        exact ⟨φ', (if_neg hlookup).trans hn, hφ.grows hg⟩
      · exact absurd hop hlookup
      · exact ⟨φ, if_neg hlookup, hφ⟩
  intro ids
  match ids with
  | [id] =>
    exact (obeys_recoverJournal root id).agree hagree (within_recoverJournal permits_sighted root id)
  | [] => exact obeys_throw fun _ _ => trivial
  | _ :: _ :: _ => exact obeys_throw fun _ _ => trivial

theorem follows_invocation (codec : Codec) (sysfsRoot stateRoot : PathBuf) (invocation : Invocation) :
    invocation.protocol.Follows (invocation.program codec sysfsRoot stateRoot).run .initial
      (Ends (fun _ _ => True) fun _ _ => True) := by
  cases invocation with
  | run request => exact obeys_coordinateRun _ _ rfl
  | recover operationId => exact recovery_obeys _ operationId _ rfl

end Recovery

section Extends

variable {φ : InvocationPhase} {j j' : Journal}

theorem stages_getLast? (j : Journal) :
    j.stages.getLast? = j.transitions.getLast?.map Transition.stage := List.getLast?_map ..

theorem Journal.stage_ne_restored (h : j.stage ≠ .restored) :
    j.stages.getLast? ≠ some .restored := by
  intro hlast
  rw [stages_getLast?] at hlast
  exact h (by rw [Journal.stage, hlast, Option.getD_some])

theorem Journal.stage_eq_restoring (h : j.stage = .restoring) :
    j.stages.getLast? = some .restoring := by
  rw [stages_getLast?]
  rw [Journal.stage] at h
  cases hlast : j.transitions.getLast?.map Transition.stage with
  | none =>
    rw [hlast] at h
    cases h
  | some stage =>
    rw [hlast] at h
    exact congrArg some h

/-- The stages of an extended journal are again a word of stages. -/
theorem InvocationPhase.Extends.word (h : φ.Extends j j') (hj : StageWord j.stages)
    (hstage : j.stage ≠ .restored) : StageWord j'.stages := by
  have hopen := hj.opened (Journal.stage_ne_restored hstage)
  cases h with
  | outcome o _ _ => exact hj
  | applied a millis hstages =>
    rw [stages_push, hstages]
    exact Or.inl (openWord_head (by decide))
  | started a millis hstages =>
    rw [stages_push, hstages]
    exact Or.inl (openWord_head (by decide))
  | recoverable a millis hstages =>
    rw [stages_push, hstages]
    exact Or.inl (openWord_head (by decide))
  | finished o a a' millis millis' hstages _ =>
    rw [stages_push, stages_push]
    change StageWord (j.stages ++ _ ++ _)
    rw [hstages]
    exact Or.inl (openWord_head (by decide))
  | conflict a millis =>
    rw [stages_push]
    exact Or.inl (hopen.attempt (by decide))
  | restoring a millis =>
    rw [stages_push]
    exact Or.inl (hopen.attempt (by decide))
  | restored a millis hrestoring _ =>
    rw [stages_push]
    exact hopen.close (Journal.stage_eq_restoring hrestoring)

/-- An outcome is recorded for a started workload only. -/
theorem InvocationPhase.Extends.outcome_started (h : φ.Extends j j')
    (hj : j.outcome.isSome = true → .workloadStarted ∈ j.stages)
    (hseen : j.operationId ∈ φ.outcomes → .workloadStarted ∈ j.stages)
    (hj' : j'.outcome.isSome = true) : .workloadStarted ∈ j'.stages := by
  cases h with
  | outcome o hmem _ => exact hseen hmem
  | finished o a a' millis millis' hstages _ =>
    rw [stages_push, stages_push]
    change Stage.workloadStarted ∈ j.stages ++ _ ++ _
    rw [hstages]
    decide
  | applied a millis _ => rw [stages_push]; exact List.mem_append_left _ (hj hj')
  | started a millis _ => rw [stages_push]; exact List.mem_append_left _ (hj hj')
  | recoverable a millis _ => rw [stages_push]; exact List.mem_append_left _ (hj hj')
  | conflict a millis => rw [stages_push]; exact List.mem_append_left _ (hj hj')
  | restoring a millis => rw [stages_push]; exact List.mem_append_left _ (hj hj')
  | restored a millis _ _ => rw [stages_push]; exact List.mem_append_left _ (hj hj')

end Extends

/-- What is true of all versions of one journal. -/
structure VersionsSound (id : String) (versions : List Journal) : Prop where
  named : ∀ v ∈ versions, v.operationId = id
  grows : versions.Pairwise fun v v' => v.transitions <+: v'.transitions ∧ v.stage ≠ .restored
  words : ∀ v ∈ versions, StageWord v.stages
  outcome : ∀ v ∈ versions, v.outcome.isSome = true → .workloadStarted ∈ v.stages

structure HistoryInv (a : Archive) : Prop where
  sound : ∀ id, VersionsSound id (a.versions id)
  current : ∀ id, a.host.journals id = (a.versions id).getLast?
  entered : ∀ id ∈ a.host.entered, ∃ v ∈ a.versions id, .workloadStarted ∈ v.stages

/-- What an invocation has learned is still true; nobody else stores journals. -/
structure Informed (φ : InvocationPhase) (a : Archive) : Prop where
  acquainted : Acquainted (fun _ => none) φ a.host
  history : HistoryInv a
  outcomes : ∀ id ∈ φ.outcomes, id ∈ a.host.entered

variable {host : Host} {sighted : Bool} {φ φ' : InvocationPhase} {a a' : Archive} {id : String}
  {j j' : Journal}

theorem historyInv_initial (contents : Sysfs) : HistoryInv (.initial contents) where
  sound _ := ⟨by simp [Archive.initial], by simp [Archive.initial], by simp [Archive.initial],
    by simp [Archive.initial]⟩
  current _ := rfl
  entered _ h := nomatch h

theorem informed_initial (h : HistoryInv a) (hrecord : RecordInv (fun _ => none) a.host) :
    Informed .initial a where
  acquainted := acquainted_initial hrecord
  history := h
  outcomes _ h := nomatch h

/-- Everything stored before is a prefix of the current journal. -/
theorem HistoryInv.older (h : HistoryInv a) (hj : a.host.journals id = some j) {v : Journal}
    (hv : v ∈ a.versions id) : v.transitions <+: j.transitions := by
  rw [h.current] at hj
  obtain ⟨rest, hrest⟩ := List.getLast?_eq_some_iff.mp hj
  rw [hrest] at hv
  have hpair := (h.sound id).grows
  rw [hrest, List.pairwise_append] at hpair
  rcases List.mem_append.mp hv with hv | hv
  · exact (hpair.2.2 v hv j (List.mem_singleton_self j)).1
  · obtain rfl := List.mem_singleton.mp hv
    exact List.prefix_rfl

/-- A version that extends the last one keeps the versions sound. -/
theorem versionsSound_extend (h : HistoryInv a) (hj : a.host.journals id = some j)
    (hstage : j.stage ≠ .restored) (hext : φ.Extends j j')
    (houtcomes : ∀ id ∈ φ.outcomes, id ∈ a.host.entered) :
    VersionsSound id (a.versions id ++ [j']) := by
  have hsound := h.sound id
  obtain ⟨rest, hrest⟩ := List.getLast?_eq_some_iff.mp ((h.current id).symm.trans hj)
  have hmem : j ∈ a.versions id := by simp [hrest]
  obtain ⟨happends, hsame, _⟩ := hext.appends
  refine ⟨?_, ?_, ?_, ?_⟩
  · intro v hv
    rcases List.mem_append.mp hv with hv | hv
    · exact hsound.named v hv
    · rw [List.mem_singleton.mp hv, hsame]
      exact hsound.named j hmem
  · rw [List.pairwise_append]
    refine ⟨hsound.grows, List.pairwise_singleton .., ?_⟩
    intro v hv v' hv'
    rw [List.mem_singleton.mp hv']
    refine ⟨(h.older hj hv).trans happends, ?_⟩
    have hpair := hsound.grows
    rw [hrest, List.pairwise_append] at hpair
    rw [hrest] at hv
    rcases List.mem_append.mp hv with hv | hv
    · exact (hpair.2.2 v hv j (List.mem_singleton_self j)).2
    · rw [List.mem_singleton.mp hv]
      exact hstage
  · intro v hv
    rcases List.mem_append.mp hv with hv | hv
    · exact hsound.words v hv
    · rw [List.mem_singleton.mp hv]
      exact hext.word (hsound.words j hmem) hstage
  · intro v hv hsome
    rcases List.mem_append.mp hv with hv | hv
    · exact hsound.outcome v hv hsome
    · rw [List.mem_singleton.mp hv] at hsome ⊢
      apply hext.outcome_started (hsound.outcome j hmem) _ hsome
      intro hseen
      rw [hsound.named j hmem] at hseen
      obtain ⟨w, hw, hstarted⟩ := h.entered id (houtcomes id hseen)
      exact ((h.older hj hw).map Transition.stage).subset hstarted

theorem versionsSound_create (h : HistoryInv a) (hnone : a.host.journals id = none)
    (hid : j.operationId = id) (houtcome : j.outcome = none) (hstages : j.stages = [.prepared]) :
    VersionsSound id (a.versions id ++ [j]) := by
  have hempty : a.versions id = [] := by
    rw [h.current] at hnone
    exact List.getLast?_eq_none_iff.mp hnone
  rw [hempty]
  refine ⟨by simp [hid], by simp, ?_, by simp [houtcome]⟩
  intro v hv
  rw [List.mem_singleton.mp hv, hstages]
  exact Or.inl (openWord_head (by decide))

/-- A permitted store keeps the history. -/
theorem historyInv_store (h : Informed φ a) (hmay : φ.MayStore id j) :
    HistoryInv (a.store id j) := by
  have hsound : VersionsSound id (a.versions id ++ [j]) := by
    cases hmay with
    | create _ hrecord habsent hid houtcome hstages =>
      exact versionsSound_create h.history (h.acquainted.absent id habsent hrecord) hid houtcome hstages
    | extend _ hholds hstage hext =>
      exact versionsSound_extend h.history (h.acquainted.holds id _ hholds) hstage hext h.outcomes
  refine ⟨fun id' => ?_, fun id' => ?_, fun id' hid' => ?_⟩
  · by_cases hid' : id' = id
    · subst hid'
      rw [Archive.store_versions_self]
      exact hsound
    · rw [Archive.store_versions_of_ne a hid']
      exact h.history.sound id'
  · by_cases hid' : id' = id
    · subst hid'
      simp
    · rw [Archive.store_versions_of_ne a hid', Archive.store_journals_of_ne a hid']
      exact h.history.current id'
  · obtain ⟨v, hv, hstarted⟩ := h.history.entered id' hid'
    refine ⟨v, ?_, hstarted⟩
    by_cases hsame : id' = id
    · subst hsame
      rw [Archive.store_versions_self]
      exact List.mem_append_left _ hv
    · rw [Archive.store_versions_of_ne a hsame]
      exact hv

theorem HistoryInv.frame (h : HistoryInv a) (hjournals : a'.host.journals = a.host.journals)
    (hentered : a'.host.entered = a.host.entered) (hversions : a'.versions = a.versions) :
    HistoryInv a' := by
  refine ⟨?_, ?_, ?_⟩
  · rw [hversions]
    exact h.sound
  · rw [hjournals, hversions]
    exact h.current
  · rw [hentered, hversions]
    exact h.entered

/-- A call on the archive is one on the record, if it is no lookup that takes an error for a
missing journal. -/
theorem recordAct_of_archiveAct {op : HostOp} {x : HostAns op}
    (hact : archiveAct host sighted op a x a') (hsighted : op.Sighted ∨ sighted = true) :
    recordAct op a.host x a'.host := by
  cases op with
  | writeJournal id j =>
    rcases hact with rfl | ⟨hx, rfl⟩
    · exact Or.inl rfl
    · exact Or.inr ⟨hx, rfl⟩
  | journalExists id =>
    obtain ⟨rfl, _, hfinds⟩ := hact
    refine ⟨rfl, fun hx => ?_⟩
    have hall : sighted = true := hsighted.resolve_left fun h => h id rfl
    by_contra hsome
    have hfound : x = true := hfinds hall (Option.isSome_iff_ne_none.mpr hsome)
    exact nomatch hx.symm.trans hfound
  | readOutcome id =>
    obtain ⟨rfl, _⟩ := hact
    exact ⟨rfl, rfl⟩
  | readStatus id =>
    obtain ⟨rfl, _⟩ := hact
    exact ⟨rfl, rfl⟩
  | stateRootExists =>
    cases hact
    exact ⟨rfl, rfl⟩
  | _ => exact recordAct_of_act hact.1

/-- Everything but a store and the entry into the supervisor only frames. -/
theorem archiveAct_frame {op : HostOp} {x : HostAns op} (hact : archiveAct host sighted op a x a')
    (hstore : ∀ id j, op ≠ .writeJournal id j) (hcoordinate : ∀ request, op ≠ .coordinate request) :
    a'.host.journals = a.host.journals ∧ a'.host.entered = a.host.entered ∧
      a'.versions = a.versions := by
  cases op with
  | writeJournal id j => exact absurd rfl (hstore id j)
  | coordinate request => exact absurd rfl (hcoordinate request)
  | journalExists id =>
    obtain ⟨rfl, _⟩ := hact
    exact ⟨rfl, rfl, rfl⟩
  | readOutcome id =>
    obtain ⟨rfl, _⟩ := hact
    exact ⟨rfl, rfl, rfl⟩
  | readStatus id =>
    obtain ⟨rfl, _⟩ := hact
    exact ⟨rfl, rfl, rfl⟩
  | stateRootExists =>
    cases hact
    exact ⟨rfl, rfl, rfl⟩
  | _ =>
    obtain ⟨hhost, hversions⟩ := hact
    obtain ⟨hjournals, hentered⟩ := act_keeps_journals hhost hstore hcoordinate
    exact ⟨hjournals, hentered, hversions⟩

/-- The supervisor is entered for an operation whose journal says that its workload is started. -/
theorem historyInv_enter (h : Informed φ a) {request : CoordinateRequest}
    (hmay : φ.MaySupervise request) (hhost : a'.host = a.host.enter request.operationId)
    (hversions : a'.versions = a.versions) : HistoryInv a' := by
  obtain ⟨_, _, _, _, j, hrecord, _, hstages, _⟩ := hmay
  have hj : a.host.journals request.operationId = some j :=
    h.acquainted.holds _ _ (Or.inl hrecord)
  refine ⟨?_, ?_, ?_⟩
  · rw [hversions]
    exact h.history.sound
  · rw [hhost, hversions]
    exact h.history.current
  · intro id hid
    rw [hhost] at hid
    rw [hversions]
    rcases List.mem_append.mp hid with hid | hid
    · exact h.history.entered id hid
    · rw [h.history.current] at hj
      obtain ⟨rest, hrest⟩ := List.getLast?_eq_some_iff.mp hj
      rw [List.mem_singleton.mp hid]
      exact ⟨j, by simp [hrest], by rw [hstages]; decide⟩

/-- A step of an invocation keeps what it knows of the host. -/
theorem informed_act {op : HostOp} {x : HostAns op}
    (hn : invocationProtocol.next φ op x = some φ') (h : Informed φ a)
    (hact : archiveAct host sighted op a x a') (hsighted : op.Sighted ∨ sighted = true) :
    Informed φ' a' := by
  have hacquainted := acquainted_act hn h.acquainted (recordAct_of_archiveAct hact hsighted)
  have hframe : (∀ id j, op ≠ .writeJournal id j) → (∀ request, op ≠ .coordinate request) →
      φ'.outcomes = φ.outcomes → Informed φ' a' := by
    intro hstore hcoordinate houtcomes
    obtain ⟨hjournals, hentered, hversions⟩ := archiveAct_frame hact hstore hcoordinate
    refine ⟨hacquainted, h.history.frame hjournals hentered hversions, ?_⟩
    rw [houtcomes, hentered]
    exact h.outcomes
  cases op with
  | writeJournal id j =>
    simp only [invocationProtocol] at hn
    split at hn
    · next hmay =>
      cases hn
      rcases hact with rfl | ⟨hx, rfl⟩
      · exact ⟨hacquainted, historyInv_store h hmay, h.outcomes⟩
      · exact ⟨hacquainted, h.history, h.outcomes⟩
    · cases hn
  | coordinate request =>
    simp only [invocationProtocol] at hn
    split at hn
    · next hmay =>
      cases hn
      obtain ⟨hhost, hversions⟩ := hact
      have hhost : a'.host = a.host.enter request.operationId := hhost
      refine ⟨hacquainted, historyInv_enter h hmay hhost hversions, fun id hid => ?_⟩
      rw [hhost]
      exact List.mem_append_left _ (h.outcomes id hid)
    · cases hn
  | readOutcome id =>
    obtain ⟨rfl, hx⟩ := hact
    refine ⟨hacquainted, h.history, ?_⟩
    cases hn
    split
    · next o =>
      intro id' hid'
      rcases List.mem_cons.mp hid' with rfl | hid'
      · exact hx o rfl
      · exact h.outcomes id' hid'
    · exact h.outcomes
  | readStatus id =>
    obtain ⟨rfl, hx⟩ := hact
    refine ⟨hacquainted, h.history, ?_⟩
    cases hn
    split
    · next o =>
      intro id' hid'
      rcases List.mem_cons.mp hid' with rfl | hid'
      · exact hx o rfl
      · exact h.outcomes id' hid'
    · exact h.outcomes
  | journalExists id =>
    refine hframe (by simp) (by simp) ?_
    cases hn
    split
    · rfl
    · rfl
  | readJournal id =>
    refine hframe (by simp) (by simp) ?_
    cases hn
    split
    · rfl
    · rfl
  | readToString path =>
    refine hframe (by simp) (by simp) ?_
    cases hn
    split
    · rfl
    · rfl
  | write path contents =>
    refine hframe (by simp) (by simp) ?_
    simp only [invocationProtocol] at hn
    split at hn
    · cases hn
      rfl
    · cases hn
  | requireInactive =>
    refine hframe (by simp) (by simp) ?_
    simp only [invocationProtocol] at hn
    split at hn
    · cases hn
      rfl
    · cases hn
  | _ =>
    cases hn
    exact hframe (by simp) (by simp) rfl

variable {codec : Codec} {sysfsRoot stateRoot : PathBuf}

/-- A call of an invocation whose run finds every journal that is there. -/
theorem informed_call {invocation : Invocation} {op : HostOp} {x : HostAns op}
    (hn : invocation.protocol.next φ op x = some φ') (h : Informed φ a)
    (hact : archiveAct host invocation.looksUp op a x a') : Informed φ' a' := by
  cases invocation with
  | run request => exact informed_act hn h hact (Or.inr rfl)
  | recover operationId =>
    by_cases hlookup : ∃ id, op = .journalExists id
    · obtain ⟨id, rfl⟩ := hlookup
      cases (recovery_lookup id φ x).symm.trans hn
      rw [hact.1]
      exact h
    · have hop : op.Sighted := fun id hid => hlookup ⟨id, hid⟩
      exact informed_act ((recovery_next hop φ x).symm.trans hn) h hact (Or.inl hop)

/-- At every point of an invocation its knowledge is right, and its next call permitted. -/
theorem informed_invocation (hI : HistoryInv a) (hrecord : RecordInv (fun _ => none) a.host)
    (invocation : Invocation)
    {q : Prog HostOp HostAns (Except BenchError Unit)} {t : List (Event HostOp HostAns)}
    (hr : Reach (traced (archiveMachine host invocation.looksUp))
      ((invocation.program codec sysfsRoot stateRoot).run, (a, [])) (q, (a', t))) :
    ∃ φ, Informed φ a' ∧ φ.tree = treeEvents t ∧ invocation.protocol.Allows q.head φ := by
  have hfollows := follows_invocation codec sysfsRoot stateRoot invocation
  have hstable : ∀ φ : InvocationPhase, Stable (traced (archiveMachine host invocation.looksUp))
      fun s => Informed φ s.1 ∧ φ.tree = treeEvents s.2 := by
    rintro φ s s' ⟨hinformed, htree⟩ ⟨⟨path, contents, hs'⟩, ht⟩
    rw [ht, hs']
    exact ⟨⟨hinformed.acquainted.frame rfl rfl, hinformed.history.frame rfl rfl rfl,
      hinformed.outcomes⟩, htree⟩
  have hstep : ∀ φ op x φ' (s s' : Archive × List (Event HostOp HostAns)),
      invocation.protocol.next φ op x = some φ' → (Informed φ s.1 ∧ φ.tree = treeEvents s.2) →
      (traced (archiveMachine host invocation.looksUp)).act op s x s' →
      Informed φ' s'.1 ∧ φ'.tree = treeEvents s'.2 := by
    rintro φ op x φ' s s' hn ⟨hinformed, htree⟩ ⟨hact, ht⟩
    refine ⟨informed_call hn hinformed hact, ?_⟩
    rw [ht, protocol_tree hn, htree, treeEvents, treeEvents, List.filterMap_append]
    cases htree' : treeEvent ⟨op, x⟩ <;> simp [htree']
  obtain ⟨φ, hreach, hinformed, htree⟩ :=
    hfollows.reach hstable hstep ⟨informed_initial hI hrecord, rfl⟩ hr
  exact ⟨φ, hinformed, htree, (hfollows _ _ hreach).1⟩

/-- Every run has its record of calls. -/
theorem reach_traced {M : Machine HostOp HostAns Archive}
    {p q : Prog HostOp HostAns (Except BenchError Unit)} (hr : Reach M (p, a) (q, a')) :
    ∃ t, Reach (traced M) (p, (a, [])) (q, (a', t)) := by
  generalize hc : (q, a') = c at hr
  induction hr generalizing q a' with
  | refl =>
    cases hc
    exact ⟨[], .refl⟩
  | @tail c₁ c₂ _ hstep ih =>
    cases hc
    obtain ⟨t, ht⟩ := ih rfl
    cases hstep with
    | call hact => exact ⟨t ++ [⟨_, _⟩], ht.tail (.call ⟨hact, rfl⟩)⟩
    | loop => exact ⟨t, ht.tail .loop⟩
    | env he => exact ⟨t, ht.tail (.env ⟨he, rfl⟩)⟩

theorem historyInv_session (hI : HistoryInv a) (hrecord : RecordInv (fun _ => none) a.host)
    (h : ArchivedSession codec sysfsRoot stateRoot true a a') :
    HistoryInv a' ∧ RecordInv (fun _ => none) a'.host := by
  induction h with
  | refl => exact ⟨hI, hrecord⟩
  | tail _ hstep ih =>
    obtain ⟨host, invocation, q, hr⟩ := hstep
    rw [Bool.true_and] at hr
    obtain ⟨t, ht⟩ := reach_traced hr
    obtain ⟨φ, hinformed, _⟩ := informed_invocation ih.1 ih.2 invocation ht
    exact ⟨hinformed.history, hinformed.acquainted.record⟩

/-- A journal that says `Restored` is stored only right after the reads of the final pass. -/
theorem mayStore_restored (hmay : φ.MayStore id j) (hstage : j.stage = .restored) :
    j.entries.map IdleEntry.atOriginal <:+ φ.tree := by
  cases hmay with
  | create _ _ _ _ _ hstages =>
    rw [stage_of_stages (l := []) hstages] at hstage
    exact nomatch hstage
  | @extend j₀ _ _ _ hunfinished hext =>
    cases hext with
    | restored a millis _ hpass => exact hpass
    | outcome o _ _ => exact absurd hstage hunfinished
    | _ =>
      rw [Journal.push_stage] at hstage
      exact nomatch hstage

/-- The history of every journal, after any sequence of invocations that stop anywhere and in
which no run takes an error of `path.exists()` for a missing journal: versions are ordered by
prefix, each is a word of the language, an outcome is recorded for a started workload only,
nothing follows `Restored`, and what says so is only ever stored after a pass that read every
entry at its original value. -/
theorem journal_stage_history {contents : Sysfs}
    (h : ArchivedSession codec sysfsRoot stateRoot true (.initial contents) a) :
    (∀ id, a.host.journals id = (a.versions id).getLast?) ∧
    (∀ id, (a.versions id).Pairwise fun v v' => v.transitions <+: v'.transitions) ∧
    (∀ id, ∀ v ∈ a.versions id, StageWord v.stages) ∧
    (∀ id v older later, a.versions id = older ++ v :: later → v.stage = .restored → later = []) ∧
    (∀ id, ∀ v ∈ a.versions id, v.outcome.isSome = true → .workloadStarted ∈ v.stages) ∧
    ∀ (host : Host) (invocation : Invocation) (q : Prog HostOp HostAns (Except BenchError Unit))
      (t : List (Event HostOp HostAns)) (a' : Archive),
      Reach (traced (archiveMachine host invocation.looksUp))
        ((invocation.program codec sysfsRoot stateRoot).run, (a, [])) (q, (a', t)) →
      ∀ id j, q.head = some (.writeJournal id j) → j.stage = .restored →
        (j.entries.map fun e => .read e.disablePath e.original) <:+ treeEvents t := by
  obtain ⟨hI, hrecord⟩ :=
    historyInv_session (historyInv_initial contents) (recordInv_initial contents) h
  refine ⟨hI.current, ?_, fun id => (hI.sound id).words, ?_, fun id => (hI.sound id).outcome, ?_⟩
  · intro id
    exact (hI.sound id).grows.imp fun h => h.1
  · intro id v older later hversions hstage
    have hpair := (hI.sound id).grows
    rw [hversions, List.pairwise_append, List.pairwise_cons] at hpair
    cases later with
    | nil => rfl
    | cons v' later => exact absurd hstage (hpair.2.1.1 v' (List.mem_cons_self ..)).2
  · intro host invocation q t a' hr id j hhead hstage
    obtain ⟨φ, _, htree, hallows⟩ := informed_invocation hI hrecord invocation hr
    have hnext := hallows (.writeJournal id j) hhead (.ok ())
    have hop : ∀ id', HostOp.writeJournal id j ≠ .journalExists id' := fun _ h => nomatch h
    rw [protocol_next hop] at hnext
    simp only [invocationProtocol] at hnext
    split at hnext
    · next hmay =>
      rw [← htree]
      exact mayStore_restored hmay hstage
    · cases hnext

/-- The sample host with its archive; without `sighted` it finds no journal by name. -/
def Host.serveArchive (host : Host) (id : String) (sighted : Bool) :
    Handler HostOp HostAns Archive
  | .writeJournal id' j, a => if id' = id then (.ok (), a.store id' j) else (.error (.state ""), a)
  | .journalExists id', a => (sighted && (a.host.journals id').isSome, a)
  | op, a => ((host.serve id op a.host).1, { a with host := (host.serve id op a.host).2 })

/-- A served call is one that the archive allows. -/
theorem Host.serveArchive_act (host : Host) (id : String) (sighted : Bool) (op : HostOp)
    (a : Archive) (ha : a.host.Only id) :
    archiveAct host sighted op a (host.serveArchive id sighted op a).1
        (host.serveArchive id sighted op a).2 ∧
      (host.serveArchive id sighted op a).2.host.Only id := by
  obtain ⟨hact, honly⟩ := host.serve_act id op a.host ha
  cases op with
  | writeJournal id' j =>
    simp only [Host.serveArchive]
    simp only [Host.serve] at honly
    split
    · next hid =>
      rw [if_pos hid] at honly
      exact ⟨Or.inl rfl, honly⟩
    · exact ⟨Or.inr ⟨rfl, rfl⟩, ha⟩
  | readOutcome id' =>
    refine ⟨⟨rfl, fun _ h => ?_⟩, ha⟩
    cases h
  | readStatus id' =>
    refine ⟨⟨rfl, fun _ h => ?_⟩, ha⟩
    cases h
  | journalExists id' =>
    refine ⟨⟨rfl, fun hx => (Bool.and_eq_true_iff.mp hx).2, fun hsighted hsome => ?_⟩, ha⟩
    exact Bool.and_eq_true_iff.mpr ⟨hsighted, hsome⟩
  | stateRootExists => exact ⟨rfl, ha⟩
  | _ => exact ⟨⟨hact, rfl⟩, honly⟩

/-- An invocation that was run is a run of the archive. -/
theorem archived_of_run (invocation : Invocation) {sighted : Bool} {a a' : Archive}
    {r : Except BenchError Unit} (ha : a.host.Only "op")
    (h : (invocation.program (sampleCodec fun _ => []) sampleRoot sampleRequest.stateRoot).run.run
      (sampleHost.serveArchive "op" (sighted && invocation.looksUp)) 400 a = some (r, a')) :
    Archived (sampleCodec fun _ => []) sampleRoot sampleRequest.stateRoot sighted a a' ∧
      a'.host.Only "op" := by
  have hreach := reach_of_run_inv
    (M := archiveMachine sampleHost (sighted && invocation.looksUp))
    (I := fun a : Archive => a.host.Only "op")
    (fun op a ha => sampleHost.serveArchive_act "op" (sighted && invocation.looksUp) op a ha) 400 _ _
    ha h
  exact ⟨⟨sampleHost, invocation, _, hreach.1⟩, hreach.2⟩

/-- One invocation of the sample operation after another. -/
def sampleArchived (sighted : Bool) : List Invocation → Archive → Option Archive
  | [], a => some a
  | invocation :: rest, a =>
    ((invocation.program (sampleCodec fun _ => []) sampleRoot sampleRequest.stateRoot).run.run
      (sampleHost.serveArchive "op" (sighted && invocation.looksUp)) 400 a).bind fun result =>
    sampleArchived sighted rest result.2

theorem sampleArchived_session {sighted : Bool} {invocations : List Invocation} {a a' : Archive}
    (ha : a.host.Only "op") (h : sampleArchived sighted invocations a = some a') :
    ArchivedSession (sampleCodec fun _ => []) sampleRoot sampleRequest.stateRoot sighted a a' := by
  induction invocations generalizing a with
  | nil =>
    cases h
    exact .refl
  | cons invocation rest ih =>
    obtain ⟨⟨r, a₁⟩, hrun, hrest⟩ := Option.bind_eq_some_iff.mp h
    obtain ⟨harchived, ha₁⟩ := archived_of_run invocation ha hrun
    exact .head harchived (ih ha₁ hrest)

/-- The versions of a run whose supervisor is lost, and of its recovery. -/
def sampleVersions : List (List Stage) :=
  [[.prepared], [.prepared, .applied], [.prepared, .applied, .workloadStarted],
    [.prepared, .applied, .workloadStarted, .recoverable],
    [.prepared, .applied, .workloadStarted, .recoverable, .restoring],
    [.prepared, .applied, .workloadStarted, .recoverable, .restoring, .restored]]

set_option maxRecDepth 4000 in
/-- The six versions of one journal. -/
theorem journal_stage_history_lostSupervisor :
    ∃ a, ArchivedSession (sampleCodec fun _ => []) sampleRoot sampleRequest.stateRoot true
        (.initial sampleSysfs) a ∧
      (a.versions "op").map Journal.stages = sampleVersions ∧
      (a.versions "op").Pairwise fun v v' => v.transitions <+: v'.transitions := by
  have hrun : (sampleArchived true [.run sampleRequest, .recover none] (.initial sampleSysfs)).map
      (fun a => (a.versions "op").map Journal.stages) = some sampleVersions := by decide +kernel
  obtain ⟨a, ha, hstages⟩ := Option.map_eq_some_iff.mp hrun
  have hsession := sampleArchived_session (fun _ _ => rfl) ha
  exact ⟨a, hsession, hstages, (journal_stage_history hsession).2.1 "op"⟩

set_option maxRecDepth 4000 in
/-- The run is repeated after the recovery, and its lookup of the journal meets an error: it
starts the workload a second time, and its new journal replaces the restored one. -/
theorem journal_stage_history_unseen :
    ∃ a, ArchivedSession (sampleCodec fun _ => []) sampleRoot sampleRequest.stateRoot false
        (.initial sampleSysfs) a ∧
      (a.versions "op").map Journal.stages = sampleVersions ++ sampleVersions.take 4 ∧
      a.host.entered = ["op", "op"] ∧
      (¬ (a.versions "op").Pairwise fun v v' => v.transitions <+: v'.transitions) ∧
      ∃ older v later, a.versions "op" = older ++ v :: later ∧ v.stage = .restored ∧
        later ≠ [] := by
  have hrun : (sampleArchived false [.run sampleRequest, .recover none, .run sampleRequest]
      (.initial sampleSysfs)).map (fun a => ((a.versions "op").map Journal.stages, a.host.entered)) =
      some (sampleVersions ++ sampleVersions.take 4, ["op", "op"]) := by decide +kernel
  obtain ⟨a, ha, hpair⟩ := Option.map_eq_some_iff.mp hrun
  obtain ⟨hstages, hentered⟩ := Prod.mk.inj hpair
  refine ⟨a, sampleArchived_session (fun _ _ => rfl) ha, hstages, hentered, ?_, ?_⟩
  · intro hpairs
    have hprefixes : ((a.versions "op").map Journal.stages).Pairwise (· <+: ·) :=
      List.pairwise_map.mpr (hpairs.imp fun h => h.map Transition.stage)
    rw [hstages] at hprefixes
    exact absurd hprefixes (by decide)
  · have hsplit : (a.versions "op").map Journal.stages =
        sampleVersions.take 5 ++ ([.prepared, .applied, .workloadStarted, .recoverable, .restoring] ++
          [.restored]) :: sampleVersions.take 4 := hstages
    obtain ⟨older, rest, hversions, -, hrest⟩ := List.map_eq_append_iff.mp hsplit
    obtain ⟨v, later, rfl, hv, hlater⟩ := List.map_eq_cons_iff.mp hrest
    refine ⟨older, v, later, hversions, stage_of_stages hv, ?_⟩
    rintro rfl
    cases hlater

end Snoozer.Benchctl
