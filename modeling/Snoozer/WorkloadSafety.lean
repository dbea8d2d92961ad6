import Snoozer.EntryGate

/-! The order in which a workload is authorised and started, and the group under which
host state is restored. -/
namespace Snoozer.Benchctl
open Interactive Fallible Protocol InvocationPhase

/-- Every process of a supervised run, and the world around them. -/
abbrev Supervised := Pool Party ProcessOp ProcessAns (fun _ => Except BenchError Unit) × World

variable {host : Host} {codec : Codec} {sysfsRoot stateRoot : PathBuf} {request : RunRequest}
  {later : ℕ → Invocation} {s : HostState} {c c' : Supervised}

/-- A call cannot start an invocation again, and only one call authorises a workload. -/
theorem act_frame {r : Party} {op : ProcessOp} {w w' : World} {x : ProcessAns op}
    (h : (supervisionParties host).act r op w x w') :
    (∀ i, w'.running i = true → w.running i = true) ∧
      (op ≠ .publish .go → w'.authorised = w.authorised) := by
  have hsame : w' = w → (∀ i, w'.running i = true → w.running i = true) ∧
      (op ≠ .publish .go → w'.authorised = w.authorised) := by
    rintro rfl
    exact ⟨fun _ hrun => hrun, fun _ => rfl⟩
  have hhost : ∀ {op : HostOp} {x : HostAns op}, hostAct host r op w x w' →
      (∀ i, w'.running i = true → w.running i = true) ∧ w'.authorised = w.authorised := by
    intro op x hact
    rw [(hostAct_effect hact).same]
    exact ⟨fun _ hrun => hrun, rfl⟩
  have hended : ∀ {success : Bool}, w' = w.ended success r →
      (∀ i, w'.running i = true → w.running i = true) ∧ w'.authorised = w.authorised := by
    rintro success rfl
    cases r with
    | invoker k =>
      refine ⟨fun i hrun => ?_, rfl⟩
      by_cases hik : i = k
      · subst hik
        rw [show (w.ended success (.invoker i)).running i = false from Function.update_self ..]
          at hrun
        exact nomatch hrun
      · rwa [show (w.ended success (.invoker k)).running i = w.running i from
          Function.update_of_ne hik ..] at hrun
    | supervisor => exact ⟨fun _ hrun => hrun, rfl⟩
    | guardian => exact ⟨fun _ hrun => hrun, rfl⟩
  have hchild : childAct host r op w x w' → (∀ i, w'.running i = true → w.running i = true) ∧
      (op ≠ .publish .go → w'.authorised = w.authorised) := by
    intro hact
    cases op with
    | host op => exact ⟨(hhost hact).1, fun _ => (hhost hact).2⟩
    | exit success => exact ⟨(hended hact).1, fun _ => (hended hact).2⟩
    | publish file =>
      rcases hact with rfl | ⟨_, rfl⟩
      · refine ⟨fun _ hrun => hrun, fun hne => ?_⟩
        have hfile : RuntimeFile.go ≠ file := fun hf => hne (by rw [hf])
        exact Function.update_of_ne hfile ..
      · exact ⟨fun _ hrun => hrun, fun _ => rfl⟩
    | supervisorArguments => exact hsame hact.2
    | guardianArguments => exact hsame hact.2
    | fileExists file => exact hsame hact.2
    | hasParent => exact hsame hact.2
    | killpg signal => exact hsame hact.1
    | tryLockActive => exact hsame hact.1
    | spawnSupervisor child =>
      cases x with
      | ok pid =>
        obtain ⟨_, rfl⟩ := hact
        exact ⟨fun _ hrun => hrun, fun _ => rfl⟩
      | error e => exact hsame hact
    | spawnGuardian child =>
      cases x with
      | ok u =>
        obtain ⟨_, rfl⟩ := hact
        exact ⟨fun _ hrun => hrun, fun _ => rfl⟩
      | error e => exact hsame hact
    | tryWait child =>
      cases child with
      | guardian => exact hsame hact.1
      | supervisor =>
        rcases x with e | _ | status
        · exact hsame hact
        · exact hsame hact.2
        · rw [hact.2]
          exact ⟨fun _ hrun => hrun, fun _ => rfl⟩
    | wait child =>
      cases child with
      | guardian => exact hsame hact.1
      | supervisor =>
        cases x with
        | error e => exact hsame hact
        | ok status =>
          rw [hact.2]
          exact ⟨fun _ hrun => hrun, fun _ => rfl⟩
    | lockActive =>
      cases x with
      | ok u =>
        obtain ⟨_, rfl⟩ := hact
        exact ⟨fun _ hrun => hrun, fun _ => rfl⟩
      | error e => exact hsame hact
    | spawnWorkload command =>
      cases x with
      | ok u =>
        rw [show w' = { w with members := w.members + 1, executed := true } from hact]
        exact ⟨fun _ hrun => hrun, fun _ => rfl⟩
      | error e => exact hsame hact
    | _ => exact hsame hact
  obtain ⟨_, hact⟩ := h
  rcases r with (_ | n) | _ | _
  · exact hchild hact
  · cases op with
    | host op => exact ⟨(hhost hact).1, fun _ => (hhost hact).2⟩
    | exit success => exact ⟨(hended hact).1, fun _ => (hended hact).2⟩
    | tryLockActive => exact hsame hact.1
    | _ => exact hsame hact
  · exact hchild hact
  · exact hchild hact

/-- The environment starts nobody and authorises nothing. -/
theorem env_frame {w w' : World} (h : WorldEnv w w') :
    (∀ i, w'.running i = true → w.running i = true) ∧ w'.authorised = w.authorised := by
  cases h with
  | killed r hr =>
    cases r with
    | invoker k =>
      refine ⟨fun i hrun => ?_, rfl⟩
      by_cases hik : i = k
      · rw [hik]
        exact hr
      · rwa [show (w.ended false (.invoker k)).running i = w.running i from
          Function.update_of_ne hik ..] at hrun
    | supervisor => exact ⟨fun _ hrun => hrun, rfl⟩
    | guardian => exact ⟨fun _ hrun => hrun, rfl⟩
  | _ => exact ⟨fun _ hrun => hrun, rfl⟩

/-- Every interleaving of the run with any number of other invocations. -/
abbrev SupervisedRun (host : Host) (codec : Codec) (sysfsRoot stateRoot : PathBuf)
    (request : RunRequest) (later : ℕ → Invocation) (s : HostState) (c : Supervised) : Prop :=
  PoolReach (supervisionParties host)
    (supervisionPrograms codec sysfsRoot stateRoot request later, World.initial s) c

/-- A coordinator that died before the authorisation leaves the workload unauthorised. -/
theorem unauthorised_step (hr : SupervisedRun host codec sysfsRoot stateRoot request later s c)
    (hdead : c.2.running .coordinator = false) (hno : c.2.authorised = false)
    (hstep : PoolStep (supervisionParties host) c c') :
    c'.2.running .coordinator = false ∧ c'.2.authorised = false := by
  have hlift : ∀ {w' : World}, (∀ i, w'.running i = true → c.2.running i = true) →
      w'.running .coordinator = false := by
    intro w' hrunning
    by_contra hrun
    rw [hrunning .coordinator (by simpa using hrun)] at hdead
    exact nomatch hdead
  obtain ⟨φ, hknown, hallows⟩ := known_reach hr
  cases hstep with
  | env henv =>
    obtain ⟨hrunning, hsame⟩ := env_frame henv
    exact ⟨hlift hrunning, hsame.trans hno⟩
  | @move pool w w' r q hmove =>
    have hhead := hallows r
    simp only at hhead
    generalize hpool : pool r = program at hmove hhead
    cases hmove with
    | loop => exact ⟨hdead, hno⟩
    | env henv => exact henv.elim
    | @call op k x _ _ hact =>
      obtain ⟨hrunning, hsame⟩ := act_frame hact
      refine ⟨hlift hrunning, ?_⟩
      by_cases hop : op = .publish .go
      · subst hop
        have hpermitted := hhead (.publish .go) rfl x
        rcases r with (_ | n) | _ | _
        · exact absurd (hact.1.symm.trans hdead) (by simp)
        · rw [show w' = w from hact.2]
          exact hno
        · exact nomatch hpermitted
        · exact nomatch hpermitted
      · exact (hsame hop).trans hno

/-- A workload that a dead coordinator has not authorised never is. -/
theorem unauthorised_forever (hr : SupervisedRun host codec sysfsRoot stateRoot request later s c)
    (hdead : c.2.running .coordinator = false) (hno : c.2.authorised = false)
    (hr' : PoolReach (supervisionParties host) c c') :
    c'.2.running .coordinator = false ∧ c'.2.authorised = false := by
  induction hr' with
  | refl => exact ⟨hdead, hno⟩
  | tail hbefore hstep ih => exact unauthorised_step (hr.trans hbefore) ih.1 ih.2 hstep

/-- In every state in which the supervisor is about to start the workload, or has started
it, the journal of the operation has the three stages, `apply` read every entry back at its
desired value, and the guardian has had its lock and said so. As long as the guardian then
runs it has the lock, and no recovery or second run is past `require_inactive`: each is still
at a call up to it. Without a coordinator that has authorised it the workload is never
started. -/
theorem workload_authorisation_order
    (hr : SupervisedRun host codec sysfsRoot stateRoot request later s c) :
    (∀ command, c.2.runs .supervisor → (c.1 .supervisor).head = some (.spawnWorkload command) →
      (∃ j, c.2.host.journals command.operationId = some j ∧
        [.prepared, .applied, .workloadStarted] <+: j.stages ∧
        ∀ e ∈ j.entries, [.wrote e.disablePath (e.desired ++ "\n"),
          .read e.disablePath e.desired] <:+: c.2.tree) ∧
      c.2.acquired = true ∧ c.2.published .ready = true) ∧
    (c.2.executed = true → ∃ id j, c.2.operation = some id ∧ c.2.host.journals id = some j ∧
      [.prepared, .applied, .workloadStarted] <+: j.stages ∧
      (∀ e ∈ j.entries, [.wrote e.disablePath (e.desired ++ "\n"),
        .read e.disablePath e.desired] <:+: c.2.tree) ∧
      c.2.acquired = true ∧ c.2.published .ready = true) ∧
    (c.2.acquired = true → c.2.published .ready = true → c.2.guardian = .running →
      c.2.active = some .guardian ∧ ∀ r (x : Except TryLockError Unit) w',
        (supervisionParties host).act r .tryLockActive c.2 x w' → x.isOk = false) ∧
    (c.2.authorised = true → c.2.guardian = .running → c.2.active = some .guardian ∧
      ∀ n, c.2.runs (.invoker (.later n)) → ∀ op,
        (c.1 (.invoker (.later n))).head = some op → op.entering = true) ∧
    (c.2.running .coordinator = false → c.2.authorised = false →
      ∀ c', PoolReach (supervisionParties host) c c' → c'.2.executed = false) := by
  obtain ⟨φ, hknown, hallows⟩ := known_reach hr
  have hguardian : c.2.published .ready = true →
      c.2.acquired = true ∧ (c.2.guardian = .running → c.2.active = some .guardian) := by
    intro hready
    apply hknown.group.acquired
    rcases hknown.group.ready hready with hp | hp <;> (rw [hp]; simp)
  refine ⟨?_, ?_, ?_, ?_, ?_⟩
  · intro command _ hhead
    -- The call is permitted only after the go file was seen.
    have hpermitted := hallows .supervisor (.spawnWorkload command) hhead (.ok ())
    have hreleased : ∃ r, (Phases.of φ).supervisor = .released r ∧
        command.operationId = r.operationId := by
      change (supervisorProtocol.next (Phases.of φ).supervisor _ _).isSome at hpermitted
      simp only [supervisorProtocol] at hpermitted
      split at hpermitted
      · next r hr =>
        split at hpermitted
        · next hid => exact ⟨r, hr, hid⟩
        · cases hpermitted
      · cases hpermitted
    obtain ⟨r, hphase, hid⟩ := hreleased
    obtain ⟨_, hready, id, hoperation, hrecorded⟩ :=
      hknown.run.authorised (hknown.run.released r hphase)
    have hrequest := hknown.run.request r (hknown.run.waiting r (Or.inr hphase))
    rw [hoperation] at hrequest
    rw [hid, ← Option.some.inj hrequest]
    exact ⟨hrecorded, (hguardian hready).1, hready⟩
  · intro hexecuted
    obtain ⟨_, hready, id, hoperation, j, hj, hstages, hback⟩ :=
      hknown.run.authorised (hknown.run.executed hexecuted)
    exact ⟨id, j, hoperation, hj, hstages, hback, (hguardian hready).1, hready⟩
  · intro _ hready hrunning
    have hactive := (hguardian hready).2 hrunning
    refine ⟨hactive, fun r x w' hact => ?_⟩
    have htry : childAct host r .tryLockActive c.2 x w' := by
      obtain ⟨_, hact⟩ := hact
      rcases r with (_ | n) | _ | _ <;> exact hact
    cases x with
    | error e => rfl
    | ok u => cases htry.2.symm.trans hactive
  · intro hauthorised hrunning
    obtain ⟨_, hready, _⟩ := hknown.run.authorised hauthorised
    exact ⟨(hguardian hready).2 hrunning, fun n hrun op hhead =>
      entering_reach hr hauthorised hrunning hrun hhead⟩
  · intro hdead hno c' hr'
    obtain ⟨_, hno'⟩ := unauthorised_forever hr hdead hno hr'
    obtain ⟨φ', hknown', _⟩ := known_reach (hr.trans hr')
    by_contra hexecuted
    rw [hknown'.run.executed (by simpa using hexecuted)] at hno'
    cases hno'

/-- The sample operation and recoveries of everything around it. -/
def sampleProcesses : Supervised :=
  (supervisionPrograms (sampleCodec fun _ => []) sampleRoot sampleRequest.stateRoot sampleRequest
    fun _ => .recover none, .initial (.initial sampleSysfs))

/-- The run is cancelled, its limits pass at once and its signals do nothing. -/
def sampleSupervised (schedule : List (Party × ℕ)) : Supervised :=
  Pool.play (serveParty sampleHost "op" fun _ => true) schedule sampleProcesses

theorem sampleSupervised_reach (schedule : List (Party × ℕ)) :
    SupervisedRun sampleHost (sampleCodec fun _ => []) sampleRoot sampleRequest.stateRoot
      sampleRequest (fun _ => .recover none) (.initial sampleSysfs) (sampleSupervised schedule) :=
  (Pool.play_reach (I := fun w : World => w.host.Only "op") serveParty_act schedule _ _
    fun _ _ => rfl).1

/-- Up to the start of the workload. -/
def sampleStart : List (Party × ℕ) :=
  [(.invoker .coordinator, 90), (.guardian, 9), (.invoker .coordinator, 4), (.supervisor, 11)]

set_option maxRecDepth 4000 in
/-- The sample run starts its workload. -/
theorem workload_authorisation_order_sample :
    ∃ c command j, SupervisedRun sampleHost (sampleCodec fun _ => []) sampleRoot
        sampleRequest.stateRoot sampleRequest (fun _ => .recover none) (.initial sampleSysfs) c ∧
      c.2.runs .supervisor ∧ (c.1 .supervisor).head = some (.spawnWorkload command) ∧
      c.2.host.journals command.operationId = some j ∧
      [.prepared, .applied, .workloadStarted] <+: j.stages ∧ c.2.active = some .guardian ∧
      (c.1 (.invoker (.later 0))).head = some (.host .createStateRoot) ∧
      ∀ n, c.2.runs (.invoker (.later n)) → ∀ op,
        (c.1 (.invoker (.later n))).head = some op → op.entering = true := by
  have hr := sampleSupervised_reach sampleStart
  have hruns : (sampleSupervised sampleStart).2.runs .supervisor := by decide +kernel
  have hguardian : (sampleSupervised sampleStart).2.guardian = .running := by decide +kernel
  have hhead : ∃ command,
      ((sampleSupervised sampleStart).1 .supervisor).head = some (.spawnWorkload command) := by
    have hstarts : (((sampleSupervised sampleStart).1 .supervisor).head.map fun op =>
        match op with
        | .spawnWorkload _ => true
        | _ => false) = some true := by decide +kernel
    obtain ⟨op, hop, hstarts⟩ := Option.map_eq_some_iff.mp hstarts
    cases op with
    | spawnWorkload command => exact ⟨command, hop⟩
    | _ => cases hstarts
  obtain ⟨command, hhead⟩ := hhead
  have hauthorised : (sampleSupervised sampleStart).2.authorised = true := by decide +kernel
  have hlater : ((sampleSupervised sampleStart).1 (.invoker (.later 0))).head =
      some (.host .createStateRoot) := by decide +kernel
  obtain ⟨hstart, _, hlock, hgate, _⟩ := workload_authorisation_order hr
  obtain ⟨⟨j, hj, hstages, _⟩, hacquired, hready⟩ := hstart command hruns hhead
  exact ⟨_, command, j, hr, hruns, hhead, hj, hstages, (hlock hacquired hready hguardian).1, hlater,
    (hgate hauthorised hguardian).2⟩

/-- The guardian of an authorised workload does not leave a group behind. -/
def World.Guarded (w : World) : Prop :=
  w.authorised = true → w.guardian = .running ∨ w.groupEmpty

/-- A restricted run is a run, and its states satisfy the restriction. -/
theorem restricted_reach {C : World → Prop}
    (hr : PoolReach ((supervisionParties host).restrict C)
      (supervisionPrograms codec sysfsRoot stateRoot request later, World.initial s) c)
    (hs : C (.initial s)) :
    SupervisedRun host codec sysfsRoot stateRoot request later s c ∧ C c.2 := by
  induction hr with
  | refl => exact ⟨.refl, hs⟩
  | tail _ hstep ih =>
    cases hstep with
    | env henv => exact ⟨ih.1.tail (.env henv.1), henv.2⟩
    | @move pool w w' r q hmove =>
      have hunrestricted : Step ((supervisionParties host).machine r) (pool r, w) (q, w') ∧ C w' := by
        generalize pool r = program at hmove
        cases hmove with
        | call hact => exact ⟨.call hact.1, hact.2⟩
        | loop => exact ⟨.loop, ih.2⟩
        | env henv => exact henv.elim
      exact ⟨ih.1.tail (.move r hunrestricted.1), hunrestricted.2⟩

/-- In every run whose guardian never leaves a group behind, whoever writes the tree after
the workload was authorised writes it with the group empty. -/
theorem restore_under_drained_group
    (hr : PoolReach ((supervisionParties host).restrict World.Guarded)
      (supervisionPrograms codec sysfsRoot stateRoot request later, World.initial s) c)
    {i : Invoker} {path : PathBuf} {contents : String} (hrun : c.2.runs (.invoker i))
    (hwrite : (c.1 (.invoker i)).head = some (.host (.write path contents)))
    (hauthorised : c.2.authorised = true) : c.2.groupEmpty := by
  obtain ⟨hr, hguarded⟩ := restricted_reach hr (by intro h; cases h)
  obtain ⟨φ, hknown, hallows⟩ := known_reach hr
  have hpermitted := hallows (.invoker i) (.host (.write path contents)) hwrite (.ok ())
  have hmay : ((Phases.of φ).invoker i).MayCall (.write path contents) ∧
      ((Phases.of φ).invoker i).run.MayWrite := by
    change (processProtocol.next ((Phases.of φ).invoker i) _ _).isSome at hpermitted
    simp only [processProtocol] at hpermitted
    split at hpermitted
    case isFalse => cases hpermitted
    next hcall =>
    refine ⟨hcall, ?_⟩
    by_contra hno
    simp only [invocationProtocol, if_neg hno] at hpermitted
    cases hpermitted
  obtain ⟨hcall, hmay⟩ := hmay
  cases i with
  | coordinator =>
    -- The run itself restores only after its guardian has succeeded.
    obtain ⟨hstage, _⟩ := hknown.run.authorised hauthorised
    rcases hcall with hbefore | hdrained
    · rcases hstage with hs | hs
      · cases hs.symm.trans hbefore
      · cases hs.symm.trans hbefore
    · exact hknown.group.drained hdrained
  | later n =>
    -- Anybody else has passed `require_inactive`, so the guardian is gone.
    have hgone := hknown.excluded n hmay.2.1 hrun hauthorised
    exact (hguarded hauthorised).resolve_left hgone

instance : DecidablePred World.Guarded := fun w =>
  inferInstanceAs (Decidable (w.authorised = true → w.guardian = .running ∨ w.groupEmpty))

/-- The supervisor gives up early, so that the group drains and the run restores. -/
def sampleDrained : Supervised :=
  Pool.play (fun r => (serveParty sampleHost "op" (· = .supervisor) r).only World.Guarded)
    [(.invoker .coordinator, 90), (.supervisor, 20), (.guardian, 9), (.invoker .coordinator, 14),
      (.guardian, 30), (.invoker .coordinator, 36)]
    sampleProcesses

theorem sampleDrained_reach : PoolReach ((supervisionParties sampleHost).restrict World.Guarded)
    sampleProcesses sampleDrained := by
  refine (Pool.play_reach (I := fun w : World => w.host.Only "op") ?_ _ _ _ fun _ _ => rfl).1
  intro r op w x w' hw hx
  obtain ⟨hx, hguarded⟩ := Server.only_eq_some hx
  obtain ⟨hact, hw'⟩ := serveParty_act r op w x w' hw hx
  exact ⟨⟨hact, hguarded⟩, hw'⟩

set_option maxRecDepth 4000 in
/-- The sample run restores what it has changed, with the group empty. -/
theorem restore_under_drained_group_sample :
    ∃ c, PoolReach ((supervisionParties sampleHost).restrict World.Guarded) sampleProcesses c ∧
      c.2.runs (.invoker .coordinator) ∧ (c.1 (.invoker .coordinator)).head =
        some (.host (.write ((sampleTree.join "state2").join "disable") "0\n")) ∧
      c.2.authorised = true ∧ c.2.groupEmpty := by
  have hrun : sampleDrained.2.runs (.invoker .coordinator) := by decide +kernel
  have hwrite : (sampleDrained.1 (.invoker .coordinator)).head =
      some (.host (.write ((sampleTree.join "state2").join "disable") "0\n")) := by decide +kernel
  have hauthorised : sampleDrained.2.authorised = true := by decide +kernel
  exact ⟨_, sampleDrained_reach, hrun, hwrite, hauthorised,
    restore_under_drained_group sampleDrained_reach hrun hwrite hauthorised⟩

/-- The workload outlives every signal; its guardian gives up and lets `active.lock` go, and
a recovery restores the tree under it. -/
def sampleAbandoned : List (Party × ℕ) :=
  [(.invoker .coordinator, 90), (.guardian, 9), (.invoker .coordinator, 4), (.supervisor, 12),
    (.invoker .coordinator, 6), (.guardian, 40), (.invoker .coordinator, 60),
    (.invoker (.later 0), 42)]

set_option maxRecDepth 4000 in
/-- A later invocation can write the tree while the workload still runs. -/
theorem restore_under_running_workload :
    ¬ ∀ (host : Host) (codec : Codec) (sysfsRoot stateRoot : PathBuf) (request : RunRequest)
      (later : ℕ → Invocation) (s : HostState) (c : Supervised) (i : Invoker) (path : PathBuf)
      (contents : String), SupervisedRun host codec sysfsRoot stateRoot request later s c →
      c.2.runs (.invoker i) → (c.1 (.invoker i)).head = some (.host (.write path contents)) →
      c.2.authorised = true → c.2.groupEmpty := by
  intro h
  have hrun : (sampleSupervised sampleAbandoned).2.runs (.invoker (.later 0)) := by decide +kernel
  have hwrite : ((sampleSupervised sampleAbandoned).1 (.invoker (.later 0))).head =
      some (.host (.write ((sampleTree.join "state2").join "disable") "0\n")) := by decide +kernel
  have hauthorised : (sampleSupervised sampleAbandoned).2.authorised = true := by decide +kernel
  have hnonempty : ¬ (sampleSupervised sampleAbandoned).2.groupEmpty := by decide +kernel
  exact hnonempty (h _ _ _ _ _ _ _ _ _ _ _ (sampleSupervised_reach sampleAbandoned) hrun hwrite
    hauthorised)

end Snoozer.Benchctl
