import Snoozer.BuildGuardian

/-! What holds of a guarded Cargo invocation in every interleaving: a status is published only after
the group is empty, the coordinator returns it only after the guardian has succeeded, and which
result it returns once both are there. -/
namespace Snoozer.Benchctl

def GuardianPc.Succeeded (pc : GuardianPc) : Prop :=
  ∃ status, pc = .exited status ∧ status.success = true

/-- Cargo has ended with the status and nothing of its group is left. -/
def Build.Finished (b : Build) (status : BuildStatus) : Prop :=
  b.cargo = .reaped status ∧ b.descendants = 0

structure Build.WorldOk (b : Build) : Prop where
  unspawned : b.cargo = .unspawned → b.descendants = 0
  recorded : ∀ status, b.status = some status → b.Finished status

/-- What is known where the guardian is. -/
def Build.GuardianOk (b : Build) : GuardianPc → Prop
  | .unspawned | .checkParentFirst | .openStdout | .spawnCargo => b.cargo = .unspawned
  | .drainGroup status _ => b.cargo = .reaped status
  | .writeStatus status => b.Finished status
  | .exited status => status.success = true → b.groupEmpty = true
  | .writeReady | .checkDrain | .checkParent | .tryWaitCargo | .terminateGroup _ _ => True

/-- What is known where the coordinator is. -/
def Build.CoordinatorOk (b : Build) : WaitPc → Prop
  | .loadCancelledFirst | .createState | .resolveExecutable | .spawnGuardian =>
    b.guardian = .unspawned
  | .waitGuardian (.ok status) => b.Finished status
  | .returned (.ok status) => b.Finished status ∧ b.guardian.Succeeded
  | .returned (.error error) =>
    error = cancelledError ∨ error = timeoutError →
      b.guardian = .unspawned ∨ b.guardian.Succeeded
  | _ => True

structure Build.Ok (b : Build) : Prop where
  world : b.WorldOk
  guardian : b.GuardianOk b.guardian
  coordinator : b.CoordinatorOk b.coordinator

theorem ok_new : Build.new.Ok where
  world := ⟨fun _ => rfl, fun _ h => by cases h⟩
  guardian := rfl
  coordinator := rfl

theorem groupEmpty_iff {b : Build} :
    b.groupEmpty = true ↔
      b.descendants = 0 ∧ (b.cargo = .unspawned ∨ ∃ status, b.cargo = .reaped status) := by
  rw [Build.groupEmpty, Bool.and_eq_true, decide_eq_true_eq]
  cases b.cargo <;> simp

theorem Build.Finished.groupEmpty {b : Build} {status : BuildStatus} (h : b.Finished status) :
    b.groupEmpty = true :=
  groupEmpty_iff.mpr ⟨h.2, Or.inr ⟨status, h.1⟩⟩

/-- What becomes of Cargo and its group while nobody starts it: an ended Cargo stays ended, and an
empty group stays empty. -/
structure Build.GroupKept (b b' : Build) : Prop where
  unspawned : b.cargo = .unspawned → b'.cargo = .unspawned
  reaped : ∀ status, b.cargo = .reaped status → b'.cargo = .reaped status
  emptied : b.groupEmpty = true → b'.descendants = 0

theorem Build.GroupKept.of_eq {b b' : Build} (hcargo : b'.cargo = b.cargo)
    (hdescendants : b'.descendants = b.descendants) : b.GroupKept b' where
  unspawned := hcargo.trans
  reaped _ := hcargo.trans
  emptied h := hdescendants.trans (groupEmpty_iff.mp h).1

theorem Build.GroupKept.finished {b b' : Build} {status : BuildStatus} (h : b.GroupKept b')
    (hfinished : b.Finished status) : b'.Finished status :=
  ⟨h.reaped status hfinished.1, h.emptied hfinished.groupEmpty⟩

theorem Build.GroupKept.groupEmpty {b b' : Build} (h : b.GroupKept b')
    (hempty : b.groupEmpty = true) : b'.groupEmpty = true := by
  have hdescendants := h.emptied hempty
  obtain ⟨-, hunspawned | ⟨status, hreaped⟩⟩ := groupEmpty_iff.mp hempty
  · exact groupEmpty_iff.mpr ⟨hdescendants, Or.inl (h.unspawned hunspawned)⟩
  · exact groupEmpty_iff.mpr ⟨hdescendants, Or.inr ⟨status, h.reaped status hreaped⟩⟩

/-- A group that is kept keeps the facts about the world, where the record is kept too or removed. -/
theorem Build.WorldOk.kept {b b' : Build} (h : b.WorldOk) (hkept : b.GroupKept b')
    (hunspawned : b'.cargo = .unspawned → b.cargo = .unspawned)
    (hstatus : ∀ status, b'.status = some status → b.status = some status) : b'.WorldOk where
  unspawned hcargo := by
    have hbefore := hunspawned hcargo
    exact hkept.emptied (groupEmpty_iff.mpr ⟨h.unspawned hbefore, Or.inl hbefore⟩)
  recorded status hsome := hkept.finished (h.recorded status (hstatus status hsome))

theorem Build.GuardianOk.kept {b b' : Build} {pc : GuardianPc} (h : b.GuardianOk pc)
    (hkept : b.GroupKept b') : b'.GuardianOk pc := by
  cases pc with
  | unspawned => exact hkept.unspawned h
  | checkParentFirst => exact hkept.unspawned h
  | openStdout => exact hkept.unspawned h
  | spawnCargo => exact hkept.unspawned h
  | drainGroup status due => exact hkept.reaped status h
  | writeStatus status => exact hkept.finished h
  | exited status => exact fun hsuccess => hkept.groupEmpty (h hsuccess)
  | _ => trivial

/-- What the coordinator knows survives every step but its own. -/
theorem Build.CoordinatorOk.mono {b b' : Build} {pc : WaitPc} (h : b.CoordinatorOk pc)
    (hfinished : ∀ status, b.Finished status → b'.Finished status)
    (hunspawned : b.guardian = .unspawned → b'.guardian = .unspawned)
    (hsucceeded : b.guardian.Succeeded → b'.guardian.Succeeded) : b'.CoordinatorOk pc := by
  cases pc with
  | loadCancelledFirst => exact hunspawned h
  | createState => exact hunspawned h
  | resolveExecutable => exact hunspawned h
  | spawnGuardian => exact hunspawned h
  | waitGuardian after =>
    cases after with
    | ok status => exact hfinished status h
    | error error => trivial
  | returned result =>
    cases result with
    | ok status => exact ⟨hfinished status h.1, hsucceeded h.2⟩
    | error error => exact fun herror => (h herror).imp hunspawned hsucceeded
  | _ => trivial

/-- The coordinator's own steps change its position, the guardian's start and the drain file. -/
structure Build.Waits (b b' : Build) : Prop where
  status : b'.status = b.status
  cancelled : b'.cancelled = b.cancelled
  coordinatorAlive : b'.coordinatorAlive = b.coordinatorAlive
  cargo : b'.cargo = b.cargo
  descendants : b'.descendants = b.descendants
  guardian : b'.guardian = b.guardian ∨
    b.coordinator = .spawnGuardian ∧ b'.guardian = .checkParentFirst

theorem waits_of_waitNext {b b' : Build} {chance : BuildChance} (h : waitNext chance b = some b') :
    b.Waits b' := by
  unfold waitNext at h
  split at h
  all_goals (try split at h)
  all_goals (try split at h)
  all_goals cases h
  all_goals (first
    | exact ⟨rfl, rfl, rfl, rfl, rfl, Or.inl rfl⟩
    | exact ⟨rfl, rfl, rfl, rfl, rfl, Or.inr ⟨by assumption, rfl⟩⟩)

theorem Build.Waits.groupKept {b b' : Build} (h : b.Waits b') : b.GroupKept b' :=
  .of_eq h.cargo h.descendants

/-- A failure that is neither a cancellation nor a timeout says nothing about the group. -/
theorem coordinatorOk_failed {b : Build} {error : BenchError} (hcancelled : error ≠ cancelledError)
    (htimeout : error ≠ timeoutError) : b.CoordinatorOk (.returned (.error error)) :=
  fun h => h.elim (absurd · hcancelled) (absurd · htimeout)

theorem coordinatorOk_io {b : Build} {operation : String} {error : IoError} :
    b.CoordinatorOk (.returned (.error (.io operation error))) :=
  coordinatorOk_failed (by intro h; cases h) (by intro h; cases h)

theorem coordinatorOk_state {b : Build} {message : String} :
    b.CoordinatorOk (.returned (.error (.state message))) :=
  coordinatorOk_failed (by intro h; cases h) (by intro h; cases h)

theorem coordinatorOk_json {b : Build} {operation message : String} :
    b.CoordinatorOk (.returned (.error (.json operation message))) :=
  coordinatorOk_failed (by intro h; cases h) (by intro h; cases h)

theorem atomicWriteFailure_eq_io {chance : BuildChance} {error : BenchError}
    (h : atomicWriteFailure chance = some error) : ∃ operation cause, error = .io operation cause := by
  obtain ⟨cause, -, rfl⟩ := Option.map_eq_some_iff.mp h
  exact ⟨_, cause, rfl⟩

/-- A step of the coordinator keeps its own invariant. -/
theorem coordinatorOk_waitNext {b b' : Build} {chance : BuildChance} (hok : b.Ok)
    (h : waitNext chance b = some b') : b'.CoordinatorOk b'.coordinator := by
  have hcoordinator := hok.coordinator
  unfold waitNext at h
  cases hpc : b.coordinator with
  | loadCancelledFirst =>
    rw [hpc] at h hcoordinator
    cases h
    dsimp only
    split
    · exact fun _ => Or.inl hcoordinator
    · exact hcoordinator
  | createState =>
    rw [hpc] at h hcoordinator
    cases h
    dsimp only
    split
    · exact coordinatorOk_io
    · exact hcoordinator
  | resolveExecutable =>
    rw [hpc] at h hcoordinator
    cases h
    dsimp only
    split
    · exact coordinatorOk_io
    · exact hcoordinator
  | spawnGuardian =>
    rw [hpc] at h
    dsimp only at h
    split at h
    · cases h
      exact coordinatorOk_io
    · cases h
      trivial
  | checkStatus =>
    rw [hpc] at h
    cases h
    dsimp only
    split <;> trivial
  | readStatus =>
    rw [hpc] at h
    cases h
    dsimp only
    split
    · exact coordinatorOk_io
    · exact coordinatorOk_json
    · next hstatus => exact hok.world.recorded _ hstatus
    · exact coordinatorOk_io
  | loadCancelled =>
    rw [hpc] at h
    cases h
    dsimp only
    split <;> trivial
  | checkTimeout =>
    rw [hpc] at h
    cases h
    dsimp only
    split <;> trivial
  | tryWaitGuardian =>
    rw [hpc] at h
    cases h
    dsimp only
    split
    · exact coordinatorOk_io
    · exact coordinatorOk_state
    · trivial
  | checkReady =>
    rw [hpc] at h
    cases h
    dsimp only
    split <;> trivial
  | checkStartup =>
    rw [hpc] at h
    cases h
    dsimp only
    split <;> trivial
  | writeDrain reason =>
    rw [hpc] at h
    cases h
    dsimp only
    split
    · next herror =>
      obtain ⟨operation, cause, rfl⟩ := atomicWriteFailure_eq_io herror
      exact coordinatorOk_io
    · trivial
  | waitGuardian after =>
    rw [hpc] at h hcoordinator
    dsimp only at h
    split at h
    · cases h
      exact coordinatorOk_io
    · split at h
      · next hguardian =>
        cases h
        dsimp only
        split
        · next hsuccess =>
          have hsucceeded : b.guardian.Succeeded := ⟨_, hguardian, hsuccess⟩
          -- the only way to a returned status, cancellation or timeout
          cases after with
          | ok status => exact ⟨hcoordinator, hsucceeded⟩
          | error error => exact fun _ => Or.inr hsucceeded
        · exact coordinatorOk_state
      · cases h
  | returned result =>
    rw [hpc] at h
    cases h

/-- A step of the coordinator keeps the invariant of the build. -/
theorem ok_waitNext {b b' : Build} {chance : BuildChance} (hok : b.Ok)
    (h : waitNext chance b = some b') : b'.Ok := by
  have hwaits := waits_of_waitNext h
  have hkept := hwaits.groupKept
  refine ⟨?_, ?_, coordinatorOk_waitNext hok h⟩
  · exact hok.world.kept hkept (fun hcargo => hwaits.cargo.symm.trans hcargo)
      (fun status hstatus => hwaits.status.symm.trans hstatus)
  · obtain hguardian | ⟨hpc, hguardian⟩ := hwaits.guardian
    · rw [hguardian]
      exact hok.guardian.kept hkept
    · -- the guardian starts where there is no Cargo yet
      have hunspawned := hok.coordinator
      have hcargo := hok.guardian
      rw [hpc] at hunspawned
      rw [show b.guardian = .unspawned from hunspawned] at hcargo
      rw [hguardian]
      exact hkept.unspawned hcargo

/-- What a step of the guardian changes besides its position and the ready file. -/
structure Build.Guards (b b' : Build) : Prop where
  unspawned : b.guardian ≠ .unspawned
  exited : ∀ status, b.guardian ≠ .exited status
  coordinator : b'.coordinator = b.coordinator
  descendants : b'.descendants = b.descendants
  cargo : b'.cargo = b.cargo ∨ b'.cargo = b.cargo.reap ∨
    b.guardian = .spawnCargo ∧ b'.cargo = .running
  status : b'.status = b.status ∨
    ∃ status, b.guardian = .writeStatus status ∧ b'.status = some status

/-- What the guardian may change of a build. -/
theorem guards_of_guardianNext {b b' : Build} {chance : BuildChance}
    (h : guardianNext chance b = some b') : b.Guards b' := by
  cases hpc : b.guardian with
  | unspawned => rw [guardianNext, hpc] at h; cases h
  | exited status => rw [guardianNext, hpc] at h; cases h
  | spawnCargo =>
    rw [guardianNext, hpc] at h
    dsimp only at h
    split at h
    · cases h
      exact ⟨by simp [hpc], by simp [hpc], rfl, rfl, Or.inl rfl, Or.inl rfl⟩
    · cases h
      exact ⟨by simp [hpc], by simp [hpc], rfl, rfl, Or.inr (Or.inr ⟨hpc, rfl⟩), Or.inl rfl⟩
  | tryWaitCargo =>
    rw [guardianNext, hpc] at h
    dsimp only at h
    split at h
    · cases h
      exact ⟨by simp [hpc], by simp [hpc], rfl, rfl, Or.inl rfl, Or.inl rfl⟩
    · cases h
      exact ⟨by simp [hpc], by simp [hpc], rfl, rfl, Or.inr (Or.inl rfl), Or.inl rfl⟩
  | writeStatus status =>
    rw [guardianNext, hpc] at h
    cases h
    refine ⟨by simp [hpc], by simp [hpc], rfl, rfl, Or.inl rfl, ?_⟩
    dsimp only
    split
    · exact Or.inr ⟨status, hpc, rfl⟩
    · exact Or.inl rfl
  | terminateGroup cause due =>
    rw [guardianNext, hpc] at h
    cases h
    refine ⟨by simp [hpc], by simp [hpc], rfl, rfl, ?_, Or.inl rfl⟩
    dsimp only
    split
    · split
      · exact Or.inr (Or.inl rfl)
      · exact Or.inl rfl
    · exact Or.inl rfl
  | _ =>
    rw [guardianNext, hpc] at h
    cases h
    exact ⟨by simp [hpc], by simp [hpc], rfl, rfl, Or.inl rfl, Or.inl rfl⟩

theorem reap_of_unspawned {cargo : CargoProcess} (h : cargo = .unspawned) :
    cargo.reap = .unspawned := by
  subst h
  rfl

theorem reap_of_reaped {cargo : CargoProcess} {status : BuildStatus} (h : cargo = .reaped status) :
    cargo.reap = .reaped status := by
  subst h
  rfl

theorem unspawned_of_reap {cargo : CargoProcess} (h : cargo.reap = .unspawned) :
    cargo = .unspawned := by
  cases cargo with
  | unspawned => rfl
  | _ => cases h

/-- Apart from Cargo's start, the guardian only reaps. -/
theorem Build.Guards.groupKept {b b' : Build} (h : b.Guards b')
    (hspawn : b.guardian ≠ .spawnCargo) : b.GroupKept b' := by
  obtain hcargo | hcargo | ⟨hpc, -⟩ := h.cargo
  · exact .of_eq hcargo h.descendants
  · exact ⟨fun hbefore => hcargo.trans (reap_of_unspawned hbefore),
      fun _ hbefore => hcargo.trans (reap_of_reaped hbefore),
      fun hempty => h.descendants.trans (groupEmpty_iff.mp hempty).1⟩
  · exact absurd hpc hspawn

theorem empty_of_drainNext {reaps empty : Bool} {chance : BuildChance} {due : DrainPc}
    (h : drainNext reaps chance empty due = .empty) : empty = true := by
  unfold drainNext at h
  split at h <;> grind

theorem guardianOk_failed {b : Build} {error : BenchError} :
    b.GuardianOk (.exited (exitStatusOf (.error error))) := by
  intro hsuccess
  have := success_exitStatusOf.mp hsuccess
  contradiction

theorem guardianOk_terminationFailed {b : Build} {cause : Option BenchError} {error : BenchError} :
    b.GuardianOk (.terminationFailed cause error) := by
  cases cause with
  | none => trivial
  | some cause => exact guardianOk_failed

/-- A step of the guardian keeps its own invariant. -/
theorem guardianOk_guardianNext {b b' : Build} {chance : BuildChance} (hok : b.Ok)
    (h : guardianNext chance b = some b') : b'.GuardianOk b'.guardian := by
  have hguardian := hok.guardian
  have hguards := guards_of_guardianNext h
  cases hpc : b.guardian with
  | unspawned => rw [guardianNext, hpc] at h; cases h
  | exited status => rw [guardianNext, hpc] at h; cases h
  | checkParentFirst =>
    rw [guardianNext, hpc] at h
    rw [hpc] at hguardian
    cases h
    dsimp only
    split
    · exact hguardian
    · exact fun _ => groupEmpty_iff.mpr ⟨hok.world.unspawned hguardian, Or.inl hguardian⟩
  | openStdout =>
    rw [guardianNext, hpc] at h
    rw [hpc] at hguardian
    cases h
    dsimp only
    split
    · exact guardianOk_failed
    · exact hguardian
  | spawnCargo =>
    rw [guardianNext, hpc] at h
    dsimp only at h
    split at h
    · cases h
      exact guardianOk_failed
    · cases h
      trivial
  | writeReady =>
    rw [guardianNext, hpc] at h
    cases h
    dsimp only
    split <;> trivial
  | checkDrain =>
    rw [guardianNext, hpc] at h
    cases h
    dsimp only
    split <;> trivial
  | checkParent =>
    rw [guardianNext, hpc] at h
    cases h
    dsimp only
    split <;> trivial
  | tryWaitCargo =>
    rw [guardianNext, hpc] at h
    dsimp only at h
    split at h
    · cases h
      trivial
    · cases h
      dsimp only
      split
      · next hreap => exact hreap
      · trivial
  | drainGroup status due =>
    have hkept := hguards.groupKept (by simp [hpc])
    rw [guardianNext, hpc] at h
    rw [hpc] at hguardian
    cases h
    dsimp only
    split
    · exact hguardian
    · next hdrain =>
      have hempty := empty_of_drainNext hdrain
      exact ⟨hguardian, (groupEmpty_iff.mp hempty).1⟩
    · trivial
  | writeStatus status =>
    have hkept := hguards.groupKept (by simp [hpc])
    rw [hpc] at hguardian
    have hempty := hkept.groupEmpty hguardian.groupEmpty
    rw [guardianNext, hpc] at h
    dsimp only at h
    cases hfailure : atomicWriteFailure chance with
    | some error =>
      rw [hfailure] at h
      cases h
      trivial
    | none =>
      rw [hfailure] at h
      cases h
      exact fun _ => hempty
  | terminateGroup cause due =>
    have hkept := hguards.groupKept (by simp [hpc])
    rw [guardianNext, hpc] at h
    dsimp only at h
    cases hdrain : drainNext true chance b.groupEmpty due with
    | next due =>
      rw [hdrain] at h
      cases h
      trivial
    | empty =>
      have hempty := hkept.groupEmpty (empty_of_drainNext hdrain)
      rw [hdrain] at h
      cases h
      exact fun _ => hempty
    | failed error =>
      rw [hdrain] at h
      cases h
      exact guardianOk_terminationFailed

/-- Before Cargo is started nothing is recorded and nothing is over. -/
theorem not_finished_of_unspawned {b : Build} {status : BuildStatus} (h : b.cargo = .unspawned) :
    ¬ b.Finished status := by
  rintro ⟨hcargo, -⟩
  cases h.symm.trans hcargo

/-- A step of the guardian keeps the invariant of the build. -/
theorem ok_guardianNext {b b' : Build} {chance : BuildChance} (hok : b.Ok)
    (h : guardianNext chance b = some b') : b'.Ok := by
  have hguards := guards_of_guardianNext h
  have hpc_unspawned : b.guardian = .unspawned → b'.guardian = .unspawned :=
    fun hpc => absurd hpc hguards.unspawned
  have hpc_succeeded : b.guardian.Succeeded → b'.guardian.Succeeded :=
    fun ⟨status, hpc, _⟩ => absurd hpc (hguards.exited status)
  by_cases hspawn : b.guardian = .spawnCargo
  · -- Cargo starts or stays away, and nothing that needs its end is known yet
    have hunspawned := hok.guardian
    rw [hspawn] at hunspawned
    have hfinished : ∀ status, b.Finished status → b'.Finished status :=
      fun status hbefore => absurd hbefore (not_finished_of_unspawned hunspawned)
    refine ⟨⟨?_, ?_⟩, guardianOk_guardianNext hok h, ?_⟩
    · intro _
      exact hguards.descendants.trans (hok.world.unspawned hunspawned)
    · intro status hstatus
      obtain hsame | ⟨written, hpc, -⟩ := hguards.status
      · exact hfinished status (hok.world.recorded status (hsame.symm.trans hstatus))
      · cases hspawn.symm.trans hpc
    · rw [hguards.coordinator]
      exact hok.coordinator.mono hfinished hpc_unspawned hpc_succeeded
  · have hkept := hguards.groupKept hspawn
    refine ⟨⟨?_, ?_⟩, guardianOk_guardianNext hok h, ?_⟩
    · intro hcargo
      have hbefore : b.cargo = .unspawned := by
        obtain hsame | hreap | ⟨hpc, -⟩ := hguards.cargo
        · exact hsame.symm.trans hcargo
        · exact unspawned_of_reap (hreap.symm.trans hcargo)
        · exact absurd hpc hspawn
      exact hguards.descendants.trans (hok.world.unspawned hbefore)
    · intro status hstatus
      obtain hsame | ⟨written, hpc, hwritten⟩ := hguards.status
      · exact hkept.finished (hok.world.recorded status (hsame.symm.trans hstatus))
      · have hfinished := hok.guardian
        rw [hpc] at hfinished
        cases hwritten.symm.trans hstatus
        exact hkept.finished hfinished
    · rw [hguards.coordinator]
      exact hok.coordinator.mono (fun _ => hkept.finished) hpc_unspawned hpc_succeeded

/-- An empty group has no member that could start another. -/
theorem not_live_of_groupEmpty {b : Build} (h : b.groupEmpty = true) :
    ¬ (b.cargo = .running ∨ 0 < b.descendants) := by
  obtain ⟨hdescendants, hcargo⟩ := groupEmpty_iff.mp h
  rintro (hrunning | hlive)
  · rw [hrunning] at hcargo
    simp at hcargo
  · omega

/-- The environment adds nobody to a group that is gone. -/
theorem groupKept_of_env {b b' : Build} (h : BuildEnv b b') : b.GroupKept b' := by
  cases h with
  | cargoEnds status hrunning =>
    constructor
    · intro hcargo
      cases hrunning.symm.trans hcargo
    · intro other hcargo
      cases hrunning.symm.trans hcargo
    · intro hempty
      exact absurd (Or.inl hrunning) (not_live_of_groupEmpty hempty)
  | forks hlive =>
    exact ⟨id, fun _ => id, fun hempty => absurd hlive (not_live_of_groupEmpty hempty)⟩
  | descendantEnds hlive =>
    exact ⟨id, fun _ => id, fun hempty => absurd (Or.inr hlive) (not_live_of_groupEmpty hempty)⟩
  | orphanReaped status hzombie hexited =>
    constructor
    · intro hcargo
      cases hzombie.symm.trans hcargo
    · intro other hcargo
      cases hzombie.symm.trans hcargo
    · exact fun hempty => (groupEmpty_iff.mp hempty).1
  | cancel => exact .of_eq rfl rfl
  | coordinatorDies => exact .of_eq rfl rfl
  | guardianKilled status hspawned hlive hfailed => exact .of_eq rfl rfl
  | stateRemoved result hreturned => exact .of_eq rfl rfl

theorem status_of_env {b b' : Build} (h : BuildEnv b b') (status : BuildStatus)
    (hstatus : b'.status = some status) : b.status = some status := by
  cases h with
  | stateRemoved result hreturned => cases hstatus
  | _ => exact hstatus

theorem coordinator_of_env {b b' : Build} (h : BuildEnv b b') : b'.coordinator = b.coordinator := by
  cases h <;> rfl

theorem unspawned_of_env {b b' : Build} (h : BuildEnv b b') (hcargo : b'.cargo = .unspawned) :
    b.cargo = .unspawned := by
  cases h with
  | cargoEnds status hrunning => cases hcargo
  | orphanReaped status hzombie hexited => cases hcargo
  | _ => exact hcargo

/-- A kill from outside is the only thing that happens to the guardian, and not a success. -/
theorem guardian_of_env {b b' : Build} (h : BuildEnv b b') :
    b'.guardian = b.guardian ∨
      b.guardian ≠ .unspawned ∧ (∀ other, b.guardian ≠ .exited other) ∧
        ∃ status, b'.guardian = .exited status ∧ status.success = false := by
  cases h with
  | guardianKilled status hspawned hlive hfailed =>
    exact Or.inr ⟨hspawned, hlive, status, rfl, hfailed⟩
  | _ => exact Or.inl rfl

/-- The environment keeps the invariant of the build. -/
theorem ok_env {b b' : Build} (hok : b.Ok) (h : BuildEnv b b') : b'.Ok := by
  have hkept := groupKept_of_env h
  refine ⟨hok.world.kept hkept (unspawned_of_env h) (status_of_env h), ?_, ?_⟩
  · obtain hsame | ⟨-, -, status, hkilled, hfailed⟩ := guardian_of_env h
    · rw [hsame]
      exact hok.guardian.kept hkept
    · rw [hkilled]
      intro hsuccess
      exact absurd hsuccess (by simp [hfailed])
  · rw [coordinator_of_env h]
    apply hok.coordinator.mono (fun _ => hkept.finished)
    · intro hunspawned
      obtain hsame | ⟨hspawned, -⟩ := guardian_of_env h
      · exact hsame.trans hunspawned
      · exact absurd hunspawned hspawned
    · intro hsucceeded
      obtain hsame | ⟨-, hlive, -⟩ := guardian_of_env h
      · rw [hsame]
        exact hsucceeded
      · obtain ⟨status, hexited, -⟩ := hsucceeded
        exact absurd hexited (hlive status)

theorem ok_of_step {b b' : Build} (hok : b.Ok) (h : BuildStep b b') : b'.Ok := by
  cases h with
  | coordinator chance halive hnext => exact ok_waitNext hok hnext
  | guardian chance hnext => exact ok_guardianNext hok hnext
  | environment henv => exact ok_env hok henv

theorem ok_of_reach {b : Build} (h : BuildReach Build.new b) : b.Ok := by
  induction h with
  | refl => exact ok_new
  | tail hreach hstep ih => exact ok_of_step ih hstep

theorem groupEmpty_of_over {b : Build} (hok : b.Ok)
    (hover : b.guardian = .unspawned ∨ b.guardian.Succeeded) : b.groupEmpty = true := by
  have hguardian := hok.guardian
  obtain hunspawned | ⟨status, hexited, hsuccess⟩ := hover
  · rw [hunspawned] at hguardian
    exact groupEmpty_iff.mpr ⟨hok.world.unspawned hguardian, Or.inl hguardian⟩
  · rw [hexited] at hguardian
    exact hguardian hsuccess

/-- Whatever interleaving: a status that `guarded_cargo` returns is the one Cargo ended with, and when
it returns a status, a cancellation or a timeout, no process of Cargo's group is left. -/
theorem guardedCargo_returns_after_drain {b : Build} (hreach : BuildReach Build.new b)
    {result : Except BenchError BuildStatus} (hreturned : b.coordinator = .returned result) :
    (∀ status, result = .ok status → b.cargo = .reaped status ∧ b.guardian.Succeeded) ∧
      ((∃ status, result = .ok status) ∨ result = .error cancelledError ∨
        result = .error timeoutError → b.groupEmpty = true) := by
  have hok := ok_of_reach hreach
  have hcoordinator := hok.coordinator
  rw [hreturned] at hcoordinator
  constructor
  · rintro status rfl
    exact ⟨hcoordinator.1.1, hcoordinator.2⟩
  · rintro (⟨status, rfl⟩ | rfl | rfl)
    · exact hcoordinator.1.groupEmpty
    · exact groupEmpty_of_over hok (hcoordinator (Or.inl rfl))
    · exact groupEmpty_of_over hok (hcoordinator (Or.inr rfl))

/-- One move of a given schedule. -/
inductive BuildMove where
  | coordinator (chance : BuildChance)
  | guardian (chance : BuildChance)
  | cargoEnds (status : BuildStatus)

def Build.move (b : Build) : BuildMove → Option Build
  | .coordinator chance => if b.coordinatorAlive then waitNext chance b else none
  | .guardian chance => guardianNext chance b
  | .cargoEnds status =>
    match b.cargo with
    | .running => some { b with cargo := .zombie status }
    | _ => none

/-- A scheduled move is a step of the build. -/
theorem step_of_move {b b' : Build} {move : BuildMove} (h : b.move move = some b') :
    BuildStep b b' := by
  unfold Build.move at h
  split at h
  · next chance =>
    split at h
    · next halive => exact .coordinator chance halive h
    · cases h
  · next chance => exact .guardian chance h
  · next status =>
    split at h
    · next hrunning =>
      cases h
      exact .environment (.cargoEnds b status hrunning)
    · cases h

theorem reach_of_moves (moves : List BuildMove) {b b' : Build}
    (h : moves.foldlM Build.move b = some b') : BuildReach b b' := by
  induction moves generalizing b with
  | nil =>
    cases h
    exact .refl
  | cons move moves ih =>
    rw [List.foldlM_cons] at h
    obtain ⟨middle, hmove, hrest⟩ := Option.bind_eq_some_iff.mp h
    exact .head (step_of_move hmove) (ih hrest)

/-- A call that succeeds before every deadline. -/
def BuildChance.calm : BuildChance := ⟨none, false, none, false⟩

/-- Cargo is started, ends with code 101, and the guardian records it. -/
def recordedMoves : List BuildMove :=
  List.replicate 4 (.coordinator .calm) ++ List.replicate 6 (.guardian .calm) ++
    .cargoEnds ⟨some 101, none⟩ :: List.replicate 5 (.guardian .calm)

def recordedBuild : Build where
  ready := true
  drain := false
  status := some ⟨some 101, none⟩
  cancelled := false
  coordinatorAlive := true
  cargo := .reaped ⟨some 101, none⟩
  descendants := 0
  coordinator := .checkStatus
  guardian := .exited (exitStatusOf (.ok ()))

theorem reach_recordedBuild : BuildReach .new recordedBuild :=
  reach_of_moves recordedMoves rfl

theorem guardedCargo_returns_after_drain_sample :
    ∃ b, BuildReach .new b ∧ b.coordinator = .returned (.ok ⟨some 101, none⟩) ∧
      b.cargo = .reaped ⟨some 101, none⟩ ∧ b.groupEmpty = true := by
  have hreach : BuildReach .new
      { recordedBuild with coordinator := .returned (.ok ⟨some 101, none⟩) } :=
    reach_recordedBuild.trans
      (reach_of_moves (List.replicate 3 (.coordinator .calm)) rfl)
  have hdrained := guardedCargo_returns_after_drain hreach rfl
  exact ⟨_, hreach, rfl, (hdrained.1 _ rfl).1, hdrained.2 (Or.inl ⟨_, rfl⟩)⟩

/-- What the coordinator returns from a position once the guardian has succeeded and left a status:
between `status_path.exists` and `try_wait` of one round the exit is seen without the status. -/
def WaitPc.verdict (exit : ExitStatus) (status : BuildStatus) :
    WaitPc → Except BenchError BuildStatus
  | .loadCancelled | .checkTimeout | .tryWaitGuardian => .error (exitedEarly exit)
  | .writeDrain reason => .error reason
  | .waitGuardian after => after
  | .returned result => result
  | _ => .ok status

/-- How many calls are left to the coordinator then. -/
def WaitPc.remaining : WaitPc → ℕ
  | .returned _ => 0
  | .waitGuardian _ | .tryWaitGuardian => 1
  | .readStatus | .checkTimeout | .writeDrain _ => 2
  | .checkStatus | .loadCancelled => 3
  | .checkStartup => 4
  | _ => 5

/-- A step in which no call of the coordinator fails or comes too late, and nobody cancels the build
or kills the coordinator. -/
inductive CalmStep : Build → Build → Prop where
  | coordinator {b b' : Build} : b.coordinatorAlive = true → waitNext .calm b = some b' →
      CalmStep b b'
  | guardian {b b' : Build} (chance : BuildChance) : guardianNext chance b = some b' →
      CalmStep b b'
  | environment {b b' : Build} : BuildEnv b b' → b'.cancelled = b.cancelled →
      b'.coordinatorAlive = b.coordinatorAlive → CalmStep b b'

/-- The guardian has succeeded, its record is there while anybody reads it, and the build goes on. -/
structure Build.Settled (b : Build) (exit : ExitStatus) (status : BuildStatus) : Prop where
  ok : b.Ok
  alive : b.coordinatorAlive = true
  uncancelled : b.cancelled = false
  exited : b.guardian = .exited exit
  success : exit.success = true
  recorded : b.status = some status ∨ ∃ result, b.coordinator = .returned result

theorem Build.Settled.ne_spawn {b : Build} {exit : ExitStatus} {status : BuildStatus}
    (h : b.Settled exit status) : b.guardian ≠ .unspawned := by
  intro hunspawned
  cases hunspawned.symm.trans h.exited

/-- A step of the coordinator keeps a settled build settled. -/
theorem settled_of_waits {b b' : Build} {exit : ExitStatus} {status : BuildStatus}
    (h : b.Settled exit status) (hrecorded : b.status = some status) (hok : b'.Ok)
    (hwaits : b.Waits b') : b'.Settled exit status where
  ok := hok
  alive := hwaits.coordinatorAlive.trans h.alive
  uncancelled := hwaits.cancelled.trans h.uncancelled
  exited := by
    obtain hsame | ⟨hpc, -⟩ := hwaits.guardian
    · exact hsame.trans h.exited
    · have hunspawned := h.ok.coordinator
      rw [hpc] at hunspawned
      exact absurd hunspawned h.ne_spawn
  success := h.success
  recorded := Or.inl (hwaits.status.trans hrecorded)

/-- A call of the coordinator keeps the verdict and is one of those left. -/
theorem verdict_waitNext {b b' : Build} {exit : ExitStatus} {status : BuildStatus}
    (h : b.Settled exit status) (hrecorded : b.status = some status)
    (hnext : waitNext .calm b = some b') :
    b'.coordinator.verdict exit status = b.coordinator.verdict exit status ∧
      b'.coordinator.remaining < b.coordinator.remaining := by
  have hunspawned := h.ok.coordinator
  have hcancelled := h.uncancelled
  have hexited := h.exited
  have hsuccess := h.success
  unfold waitNext at hnext
  cases hpc : b.coordinator with
  | loadCancelledFirst => rw [hpc] at hunspawned; exact absurd hunspawned h.ne_spawn
  | createState => rw [hpc] at hunspawned; exact absurd hunspawned h.ne_spawn
  | resolveExecutable => rw [hpc] at hunspawned; exact absurd hunspawned h.ne_spawn
  | spawnGuardian => rw [hpc] at hunspawned; exact absurd hunspawned h.ne_spawn
  | returned result => rw [hpc] at hnext; cases hnext
  | checkReady =>
    rw [hpc] at hnext
    cases hnext
    dsimp only
    split <;> simp [WaitPc.verdict, WaitPc.remaining]
  | waitGuardian after =>
    rw [hpc] at hnext
    simp only [BuildChance.calm, hexited, hsuccess, if_true] at hnext
    cases hnext
    simp [WaitPc.verdict, WaitPc.remaining]
  | _ =>
    rw [hpc] at hnext
    cases hnext
    simp [BuildChance.calm, atomicWriteFailure, hrecorded, hcancelled, hexited, WaitPc.verdict,
      WaitPc.remaining]

/-- A calm step keeps a settled build settled, with the same verdict to come. -/
theorem settled_calm {b b' : Build} {exit : ExitStatus} {status : BuildStatus}
    (h : b.Settled exit status) (hstep : CalmStep b b') :
    b'.Settled exit status ∧
      b'.coordinator.verdict exit status = b.coordinator.verdict exit status := by
  cases hstep with
  | coordinator halive hnext =>
    obtain hrecorded | ⟨result, hreturned⟩ := h.recorded
    · have hok := ok_waitNext h.ok hnext
      exact ⟨settled_of_waits h hrecorded hok (waits_of_waitNext hnext),
        (verdict_waitNext h hrecorded hnext).1⟩
    · rw [waitNext, hreturned] at hnext
      cases hnext
  | guardian chance hnext => exact absurd h.exited ((guards_of_guardianNext hnext).exited exit)
  | environment henv hcancelled halive =>
    have hcoordinator := coordinator_of_env henv
    refine ⟨?_, by rw [hcoordinator]⟩
    exact
      { ok := ok_env h.ok henv
        alive := halive.trans h.alive
        uncancelled := hcancelled.trans h.uncancelled
        exited := by
          obtain hsame | ⟨-, hlive, -⟩ := guardian_of_env henv
          · exact hsame.trans h.exited
          · exact absurd h.exited (hlive exit)
        success := h.success
        recorded := by
          rw [hcoordinator]
          cases henv with
          | stateRemoved result hreturned => exact Or.inr ⟨result, hreturned⟩
          | _ => exact h.recorded }

theorem settled_calm_run {b b' : Build} {exit : ExitStatus} {status : BuildStatus}
    (h : b.Settled exit status) (hrun : Relation.ReflTransGen CalmStep b b') :
    b'.Settled exit status ∧
      b'.coordinator.verdict exit status = b.coordinator.verdict exit status := by
  induction hrun with
  | refl => exact ⟨h, rfl⟩
  | tail hreach hstep ih =>
    obtain ⟨hsettled, hverdict⟩ := ih
    obtain ⟨hsettled', hverdict'⟩ := settled_calm hsettled hstep
    exact ⟨hsettled', hverdict'.trans hverdict⟩

/-- The coordinator is never stuck before it has returned. -/
theorem exists_waitNext {b : Build} {exit : ExitStatus} {status : BuildStatus}
    (h : b.Settled exit status) (hpc : ∀ result, b.coordinator ≠ .returned result) :
    ∃ b', waitNext .calm b = some b' := by
  have hexited := h.exited
  unfold waitNext
  cases hcoordinator : b.coordinator with
  | returned result => exact absurd hcoordinator (hpc result)
  | waitGuardian after => simp [BuildChance.calm, hexited]
  | spawnGuardian => simp [BuildChance.calm]
  | _ => exact ⟨_, rfl⟩

/-- From a settled state the coordinator's own calls, as many as are left to it, return the verdict. -/
theorem returns_verdict {exit : ExitStatus} {status : BuildStatus} (fuel : ℕ) (b : Build)
    (h : b.Settled exit status) (hfuel : b.coordinator.remaining ≤ fuel) :
    ∃ calls ≤ fuel, ∃ b', (List.replicate calls (.coordinator .calm)).foldlM Build.move b = some b' ∧
      b'.coordinator = .returned (b.coordinator.verdict exit status) := by
  induction fuel generalizing b with
  | zero =>
    cases hpc : b.coordinator with
    | returned result => exact ⟨0, le_rfl, b, rfl, hpc⟩
    | _ => rw [hpc] at hfuel; simp [WaitPc.remaining] at hfuel
  | succ fuel ih =>
    by_cases hreturned : ∃ result, b.coordinator = .returned result
    · obtain ⟨result, hpc⟩ := hreturned
      refine ⟨0, by omega, b, rfl, ?_⟩
      rw [hpc, WaitPc.verdict]
    · have hpc : ∀ result, b.coordinator ≠ .returned result := by
        intro result hresult
        exact hreturned ⟨result, hresult⟩
      have hrecorded : b.status = some status := h.recorded.resolve_right hreturned
      obtain ⟨next, hnext⟩ := exists_waitNext h hpc
      obtain ⟨hverdict, hremaining⟩ := verdict_waitNext h hrecorded hnext
      have hsettled := settled_of_waits h hrecorded (ok_waitNext h.ok hnext)
        (waits_of_waitNext hnext)
      obtain ⟨calls, hcalls, b', hrun, hb'⟩ := ih next hsettled (by omega)
      refine ⟨calls + 1, by omega, b', ?_, hb'.trans (by rw [hverdict])⟩
      rw [List.replicate_succ, List.foldlM_cons]
      exact Option.bind_eq_some_iff.mpr ⟨next, by simp [Build.move, h.alive, hnext], hrun⟩

theorem remaining_le (pc : WaitPc) : pc.remaining ≤ 5 := by
  cases pc <;> simp [WaitPc.remaining]

/-- Once the guardian has succeeded and left a status, every calm run ends with the same result, fixed
by where the coordinator is then, and five calls of the coordinator are enough for it. Where the
exit comes between `status_path.exists` and `try_wait` of one round, the recorded status is lost
and the build fails as exited before recording it. -/
theorem guardedCargo_verdict {b b' : Build} {exit : ExitStatus} {status : BuildStatus}
    (hreach : BuildReach .new b) (halive : b.coordinatorAlive = true)
    (huncancelled : b.cancelled = false) (hexited : b.guardian = .exited exit)
    (hsuccess : exit.success = true) (hrecorded : b.status = some status)
    (hrun : Relation.ReflTransGen CalmStep b b') :
    (∀ result, b'.coordinator = .returned result →
        result = b.coordinator.verdict exit status) ∧
      ∃ calls ≤ 5, ∃ b'',
        (List.replicate calls (.coordinator .calm)).foldlM Build.move b' = some b'' ∧
          b''.coordinator = .returned (b.coordinator.verdict exit status) := by
  have hsettled : b.Settled exit status :=
    ⟨ok_of_reach hreach, halive, huncancelled, hexited, hsuccess, Or.inl hrecorded⟩
  obtain ⟨hsettled', hverdict⟩ := settled_calm_run hsettled hrun
  constructor
  · intro result hreturned
    rw [hreturned] at hverdict
    exact hverdict
  · obtain ⟨calls, hcalls, b'', hcalled, hb''⟩ := returns_verdict 5 b' hsettled' (remaining_le _)
    exact ⟨calls, hcalls, b'', hcalled, hb''.trans (by rw [hverdict])⟩

/-- The same guardian, seen by a coordinator that has just found no status and by one that is about to
look. -/
theorem guardedCargo_verdict_sample :
    (∃ b, BuildReach .new b ∧ b.status = some ⟨some 101, none⟩ ∧ b.coordinator = .checkStatus ∧
        ∃ calls ≤ 5, ∃ b'',
          (List.replicate calls (.coordinator .calm)).foldlM Build.move b = some b'' ∧
            b''.coordinator = .returned (.ok ⟨some 101, none⟩)) ∧
      ∃ b, BuildReach .new b ∧ b.status = some ⟨some 101, none⟩ ∧ b.coordinator = .loadCancelled ∧
        ∃ calls ≤ 5, ∃ b'',
          (List.replicate calls (.coordinator .calm)).foldlM Build.move b = some b'' ∧
            b''.coordinator = .returned (.error (exitedEarly (exitStatusOf (.ok ())))) := by
  have hlate : BuildReach .new { recordedBuild with coordinator := .loadCancelled } :=
    reach_of_moves (List.replicate 4 (.coordinator .calm) ++
      List.replicate 6 (.guardian .calm) ++ .cargoEnds ⟨some 101, none⟩ ::
        .coordinator .calm :: List.replicate 5 (.guardian .calm)) rfl
  constructor
  · exact ⟨recordedBuild, reach_recordedBuild, rfl, rfl,
      (guardedCargo_verdict reach_recordedBuild rfl rfl rfl rfl rfl .refl).2⟩
  · exact ⟨_, hlate, rfl, rfl, (guardedCargo_verdict hlate rfl rfl rfl rfl rfl .refl).2⟩

end Snoozer.Benchctl
