import Snoozer.CpuIdleHost
import Snoozer.CpuIdleCalls

/-! A host without I/O errors answers every call of a recovery, so an uninterrupted
recovery ends. -/
namespace Snoozer.Benchctl
open Interactive Fallible

variable {codec : Codec}

/-- Without I/O errors every call has an answer. -/
theorem Host.answers (host : Host) (op : HostOp) (s : HostState) (hs : s.FinitelyMany) :
    ∃ x s', host.act false op s x s' ∧ s'.FinitelyMany := by
  cases op with
  | writeJournal id j => exact ⟨.ok (), s.store id j, rfl, hs.store id j⟩
  | write path contents => exact ⟨.ok (), s.setSysfs path (some contents), rfl, hs⟩
  | coordinate request => exact ⟨.ok .success, s.enter request.operationId, rfl, hs⟩
  | listJournals =>
    obtain ⟨ids, hids⟩ := hs
    exact ⟨.ok (ids.map .ok), s, ⟨Or.inl ⟨ids, rfl, hids⟩, rfl⟩, ids, hids⟩
  | readJournal id =>
    cases h : s.journals id with
    | none => exact ⟨.error (.state ""), s, ⟨Or.inr h, rfl⟩, hs⟩
    | some j => exact ⟨.ok j, s, ⟨h, rfl⟩, hs⟩
  | symlinkMetadata path =>
    cases h : host.symlink path with
    | none => exact ⟨.error ⟨""⟩, s, ⟨Or.inr h, rfl⟩, hs⟩
    | some isSymlink => exact ⟨.ok isSymlink, s, ⟨h, rfl⟩, hs⟩
  | readDir path =>
    cases h : host.listing path with
    | none => exact ⟨.error ⟨""⟩, s, ⟨Or.inr h, rfl⟩, hs⟩
    | some names => exact ⟨.ok (names.map .ok), s, ⟨Or.inl ⟨names, rfl, h⟩, rfl⟩, hs⟩
  | readToString path =>
    cases h : s.sysfs path with
    | none => exact ⟨.error ⟨""⟩, s, ⟨Or.inr h, rfl⟩, hs⟩
    | some contents => exact ⟨.ok contents, s, ⟨h, rfl⟩, hs⟩
  | stateRootMetadata =>
    exact ⟨.ok ⟨false, true, host.uid, 0o700⟩, s, ⟨Or.inr ⟨rfl, rfl, rfl, rfl⟩, rfl⟩, hs⟩
  | bootId => exact ⟨.ok host.bootId, s, ⟨rfl, rfl⟩, hs⟩
  | journalExists id => exact ⟨_, s, ⟨rfl, rfl⟩, hs⟩
  | stateRootExists => exact ⟨true, s, ⟨rfl, rfl⟩, hs⟩
  | actor => exact ⟨⟨host.uid, 0⟩, s, ⟨Or.inr rfl, rfl⟩, hs⟩
  | readOutcome id => exact ⟨.ok none, s, ⟨trivial, rfl⟩, hs⟩
  | readStatus id => exact ⟨.ok none, s, ⟨trivial, rfl⟩, hs⟩
  | createStateRoot => exact ⟨.ok (), s, ⟨trivial, rfl⟩, hs⟩
  | secureStateRoot mode => exact ⟨.ok (), s, ⟨trivial, rfl⟩, hs⟩
  | lockFor wait => exact ⟨.ok (), s, ⟨trivial, rfl⟩, hs⟩
  | requireInactive => exact ⟨.ok (), s, ⟨trivial, rfl⟩, hs⟩
  | removeRuntime id => exact ⟨.ok (), s, ⟨trivial, rfl⟩, hs⟩
  | invokingActor => exact ⟨.ok ⟨0, 0⟩, s, rfl, hs⟩
  | nowMillis => exact ⟨(0 : ℕ), s, rfl, hs⟩
  | newOperationId => exact ⟨"", s, rfl, hs⟩
  | readFile path => exact ⟨.ok [], s, rfl, hs⟩
  | atomicWrite path bytes => exact ⟨.ok (), s, rfl, hs⟩
  | setPermissions path mode => exact ⟨.ok (), s, rfl, hs⟩
  | currentExe => exact ⟨.error ⟨""⟩, s, rfl, hs⟩
  | verifyCheckout receipt actor => exact ⟨.ok (), s, rfl, hs⟩
  | clientWatch pid => exact ⟨.ok true, s, rfl, hs⟩
  | pauseAfterExecutableSnapshot => exact ⟨.ok (), s, rfl, hs⟩

/-- Any call, but a journal is stored only when it passes its own check. -/
def HostOp.Checked (codec : Codec) (op : HostOp) : Prop :=
  ∀ id j, op = .writeJournal id j → j.validate codec = .ok ()

theorem HostOp.checked_of_quiet (op : HostOp) (h : op.quiet = true) : op.Checked codec := by
  rintro id j rfl
  cases h

theorem permits_checked (id : String) (request : Request) :
    Permits codec (HostOp.Checked codec) id request where
  quiet := HostOp.checked_of_quiet
  write _ _ _ _ h := nomatch h
  record j _ hvalid id' j' h := by
    cases h
    exact hvalid

/-- A supervised run stores only journals that pass their check. -/
theorem within_superviseRun (request : RunRequest) (accepted : Acceptance) (clientWatch : Bool)
    (coordinator : Actor) (j : Journal) :
    Within (HostOp.Checked codec) (superviseRun codec request accepted clientWatch coordinator j) := by
  have hquiet : ∀ op : HostOp, op.quiet = true → op.Checked codec := HostOp.checked_of_quiet
  refine within_transition hquiet fun _ => (permits_checked ..).store.bind fun _ => ?_
  refine within_transition hquiet fun _ => (permits_checked ..).store.bind fun _ => ?_
  refine within_call (fun _ _ h => nomatch h) fun result => ?_
  cases result with
  | ok outcome => exact (permits_checked ..).finishRun request coordinator outcome
  | error error =>
    refine (permits_checked ..).reconcileRuntimeOutcome fun j' _ => ?_
    exact within_actorTransition hquiet fun _ _ => (permits_checked ..).store.bind fun _ =>
      within_throw _

/-- So does the whole of `coordinate_run`. -/
theorem within_coordinateRun (request : RunRequest) :
    Within (HostOp.Checked codec) (coordinateRun codec request) := by
  have hquiet : ∀ op : HostOp, op.quiet = true → op.Checked codec := HostOp.checked_of_quiet
  have hexecute : ∀ (request : RunRequest) (accepted : Acceptance),
      Within (HostOp.Checked codec) (executeRun codec request accepted) := by
    intro request accepted
    refine (within_requireNoUnfinishedJournal hquiet).bind fun _ => ?_
    refine within_call (hquiet _ rfl) fun _ => ?_
    refine (within_ofExcept _).bind fun _ => ?_
    refine (within_acceptSnapshots hquiet (fun _ _ _ _ h => nomatch h) accepted).bind fun _ => ?_
    refine within_call (hquiet _ rfl) fun _ => (within_ofExcept _).bind fun _ => ?_
    refine within_call (hquiet _ rfl) fun _ => (within_readBootId hquiet).bind fun _ => ?_
    refine Within.bind (within_call (hquiet _ rfl) fun _ => within_pure _) fun j => ?_
    refine (within_inventory hquiet _ _).bind fun entries => ?_
    refine (permits_checked ..).store.bind fun _ => ?_
    refine (Permits.apply (j := j) (permits_checked "" j.request) _ _).attempt.bind fun applied => ?_
    cases applied with
    | ok _ => exact within_superviseRun ..
    | error error =>
      refine ((permits_checked ..).restore _).attempt.bind fun restored => ?_
      cases restored with
      | ok _ => exact within_throw _
      | error _ => exact within_throw _
  refine Within.bind (.ite (within_throw _) (.ite (within_throw _) (within_pure _))) fun cpus => ?_
  refine (within_acceptRequest hquiet (fun _ _ _ h => nomatch h) (fun _ _ h => nomatch h) _).bind
    fun accepted => within_call (fun _ _ h => nomatch h) fun _ => ?_
  exact .ite (within_replayJournal hquiet accepted) (hexecute _ accepted)

/-- A recovery, too, stores only journals that pass their check. -/
theorem within_recover (root : PathBuf) (operationId : Option String) :
    Within (HostOp.Checked codec) (recover codec root operationId) :=
  (within_enterStateDirectory HostOp.checked_of_quiet (fun _ _ _ h => nomatch h)
    (fun _ _ h => nomatch h) true).bind fun _ =>
    within_recoverSelected permits_checked (fun _ _ _ h => nomatch h) root operationId

/-- An uninterrupted recovery ends. -/
theorem recover_completes (host : Host) (root : PathBuf) (operationId : Option String)
    {s : HostState} (hs : s.FinitelyMany) :
    ∃ r s', Reach (host.machine false false) ((recover codec root operationId).run, s)
      (.ret r, s') :=
  (within_recover root operationId).loopFree.completes (fun op s hs => host.answers op s hs) hs

/-- A host that answers without I/O errors, has no operation but `id`, and whose
supervisor is lost as soon as it is entered. -/
def Host.serve (host : Host) (id : String) : Handler HostOp HostAns HostState
  | .createStateRoot, s => (.ok (), s)
  | .secureStateRoot _, s => (.ok (), s)
  | .lockFor _, s => (.ok (), s)
  | .requireInactive, s => (.ok (), s)
  | .readOutcome _, s => (.ok none, s)
  | .readStatus _, s => (.ok none, s)
  | .removeRuntime _, s => (.ok (), s)
  | .stateRootExists, s => (true, s)
  | .stateRootMetadata, s => (.ok ⟨false, true, host.uid, 0o700⟩, s)
  | .actor, s => (⟨host.uid, 0⟩, s)
  | .bootId, s => (.ok host.bootId, s)
  | .journalExists id', s => ((s.journals id').isSome, s)
  | .readJournal id', s => ((s.journals id').elim (.error (.state "")) .ok, s)
  | .writeJournal id' j, s => if id' = id then (.ok (), s.store id' j) else (.error (.state ""), s)
  | .listJournals, s => (.ok (if (s.journals id).isSome then [.ok id] else []), s)
  | .symlinkMetadata p, s => ((host.symlink p).elim (.error ⟨""⟩) .ok, s)
  | .readDir p, s => ((host.listing p).elim (.error ⟨""⟩) fun names => .ok (names.map .ok), s)
  | .readToString p, s => ((s.sysfs p).elim (.error ⟨""⟩) .ok, s)
  | .write p c, s => (.ok (), s.setSysfs p (some c))
  | .coordinate request, s => (.error (.state "supervisor lost"), s.enter request.operationId)
  | .invokingActor, s => (.ok ⟨host.uid, 0⟩, s)
  | .nowMillis, s => ((0 : ℕ), s)
  | .newOperationId, s => (id, s)
  | .readFile _, s => (.ok [], s)
  | .atomicWrite _ _, s => (.ok (), s)
  | .setPermissions _ _, s => (.ok (), s)
  | .currentExe, s => (.ok ⟨true, []⟩, s)
  | .verifyCheckout _ _, s => (.ok (), s)
  | .clientWatch _, s => (.ok false, s)
  | .pauseAfterExecutableSnapshot, s => (.ok (), s)

/-- No operation but `id` has a journal. -/
def HostState.Only (s : HostState) (id : String) : Prop := ∀ id', id' ≠ id → s.journals id' = none

/-- Apart from the listing and the writing of journals, which depend on what there is, the
answers are right without any fault. -/
theorem Host.serve_answers (host : Host) (id : String) (faults : Bool) (op : HostOp) (s : HostState)
    (hwrite : ∀ id' j, op ≠ .writeJournal id' j) (hlist : op ≠ .listJournals) :
    host.act faults op s (host.serve id op s).1 (host.serve id op s).2 := by
  cases op with
  | writeJournal id' j => exact absurd rfl (hwrite id' j)
  | listJournals => exact absurd rfl hlist
  | readJournal id' =>
    refine ⟨?_, rfl⟩
    simp only [Host.serve]
    cases s.journals id' with
    | none => exact Or.inr rfl
    | some j => exact rfl
  | symlinkMetadata p =>
    refine ⟨?_, rfl⟩
    simp only [Host.serve]
    cases host.symlink p with
    | none => exact Or.inr rfl
    | some isSymlink => exact rfl
  | readDir p =>
    refine ⟨?_, rfl⟩
    simp only [Host.serve]
    cases host.listing p with
    | none => exact Or.inr rfl
    | some names => exact Or.inl ⟨names, rfl, rfl⟩
  | readToString p =>
    refine ⟨?_, rfl⟩
    simp only [Host.serve]
    cases s.sysfs p with
    | none => exact Or.inr rfl
    | some contents => exact rfl
  | stateRootMetadata => exact ⟨Or.inr ⟨rfl, rfl, rfl, rfl⟩, rfl⟩
  | actor => exact ⟨Or.inr rfl, rfl⟩
  | write p c => exact rfl
  | coordinate request => exact rfl
  | createStateRoot => exact ⟨trivial, rfl⟩
  | secureStateRoot mode => exact ⟨trivial, rfl⟩
  | lockFor wait => exact ⟨trivial, rfl⟩
  | requireInactive => exact ⟨trivial, rfl⟩
  | readOutcome id' => exact ⟨trivial, rfl⟩
  | readStatus id' => exact ⟨trivial, rfl⟩
  | removeRuntime id' => exact ⟨trivial, rfl⟩
  | stateRootExists => exact ⟨rfl, rfl⟩
  | bootId => exact ⟨rfl, rfl⟩
  | journalExists id' => exact ⟨rfl, rfl⟩
  | invokingActor => exact rfl
  | nowMillis => exact rfl
  | newOperationId => exact rfl
  | readFile path => exact rfl
  | atomicWrite path bytes => exact rfl
  | setPermissions path mode => exact rfl
  | currentExe => exact rfl
  | verifyCheckout receipt actor => exact rfl
  | clientWatch pid => exact rfl
  | pauseAfterExecutableSnapshot => exact rfl

/-- A served call is one the host allows, and the host keeps to the one operation. -/
theorem Host.serve_act (host : Host) (id : String) (op : HostOp) (s : HostState) (hs : s.Only id) :
    host.act true op s (host.serve id op s).1 (host.serve id op s).2 ∧
      (host.serve id op s).2.Only id := by
  by_cases hwrite : ∃ id' j, op = .writeJournal id' j
  · obtain ⟨id', j, rfl⟩ := hwrite
    simp only [Host.serve]
    split
    · next hid =>
      refine ⟨rfl, fun other hother => ?_⟩
      rw [HostState.store_of_ne s (hid ▸ hother)]
      exact hs other hother
    · exact ⟨⟨rfl, Or.inl rfl⟩, hs⟩
  by_cases hlist : op = .listJournals
  · subst hlist
    refine ⟨⟨Or.inl ⟨if (s.journals id).isSome then [id] else [], ?_, ?_, fun id' => ?_⟩, rfl⟩, hs⟩
    · split <;> rfl
    · split <;> simp
    · by_cases hid : id' = id
      · subst hid
        split <;> simp_all
      · rw [hs id' hid]
        split <;> simp [hid]
  have hact := host.serve_answers id true op s (fun id' j h => hwrite ⟨id', j, h⟩) hlist
  refine ⟨hact, fun id' hid' => ?_⟩
  by_cases hcoordinate : ∃ request, op = .coordinate request
  · obtain ⟨request, rfl⟩ := hcoordinate
    exact hs id' hid'
  · rw [(act_keeps_journals hact (fun id' j h => hwrite ⟨id', j, h⟩)
      fun request h => hcoordinate ⟨request, h⟩).1]
    exact hs id' hid'

end Snoozer.Benchctl
