import Snoozer.Supervision
import Mathlib.Logic.Relation

/-! A guarded Cargo invocation of `tools/benchctl/src/build.rs`: `guarded_cargo` with its loop
`wait_for_cargo` on one side, `build_guardian` with `monitor_cargo` and the two drains on the other,
and Cargo with its process group between them. A step is one call of one of the two processes, or a
change that nobody of them makes. -/
namespace Snoozer.Benchctl

/-- `BuildStatus`, Cargo's exit status as the guardian records it. -/
structure BuildStatus where
  code : Option Int
  signal : Option Int
  deriving DecidableEq, Repr

namespace BuildStatus

def success (status : BuildStatus) : Bool := status.code = some 0

def display (status : BuildStatus) : String :=
  match status.code, status.signal with
  | some code, _ => s!"exit code {code}"
  | none, some signal => s!"signal {signal}"
  | none, none => "unknown exit status"

end BuildStatus

def BenchError.exitCode : BenchError → Int
  | workload _ => 1
  | _ => 2

/-- How `run_from` ends the process. -/
def exitStatusOf : Except BenchError Unit → ExitStatus
  | .ok () => ⟨some 0, none, "exit status: 0"⟩
  | .error error => ⟨some error.exitCode, none, s!"exit status: {error.exitCode}"⟩

theorem success_exitStatusOf {result : Except BenchError Unit} :
    (exitStatusOf result).success = true ↔ result = .ok () := by
  cases result with
  | ok u => exact iff_of_true rfl rfl
  | error error => cases error <;> simp [exitStatusOf, ExitStatus.success, BenchError.exitCode]

/-- `wait_for_cargo`, after the beginning of `guarded_cargo`; a position is named after the call that
comes next, and `after` is what is returned once the guardian has been reaped. -/
inductive WaitPc where
  | loadCancelledFirst
  | createState
  | resolveExecutable
  | spawnGuardian
  | checkStatus
  | readStatus
  | loadCancelled
  | checkTimeout
  | tryWaitGuardian
  | checkReady
  | checkStartup
  | writeDrain (reason : BenchError)
  | waitGuardian (after : Except BenchError BuildStatus)
  | returned (result : Except BenchError BuildStatus)
  deriving DecidableEq

/-- Inside `drain_cargo_group` and `terminate_cargo_group`: two rounds, the second one after
`SIGKILL`. -/
inductive DrainPc where
  | signal (kill : Bool)
  | checkGrace (kill : Bool)
  | tryWait (kill : Bool)
  | inspect (kill : Bool)
  deriving DecidableEq, Repr

/-- `build_guardian`; a termination with a cause is the cleanup after a failed `monitor_cargo`. -/
inductive GuardianPc where
  | unspawned
  | checkParentFirst
  | openStdout
  | spawnCargo
  | writeReady
  | checkDrain
  | checkParent
  | tryWaitCargo
  | drainGroup (status : BuildStatus) (due : DrainPc)
  | writeStatus (status : BuildStatus)
  | terminateGroup (cause : Option BenchError) (due : DrainPc)
  | exited (status : ExitStatus)
  deriving DecidableEq

inductive CargoProcess where
  | unspawned
  | running
  | zombie (status : BuildStatus)
  | reaped (status : BuildStatus)
  deriving DecidableEq, Repr

/-- The files of the guardian's directory, the flag of the signal handlers, Cargo and the number of
other processes of its group, and the two processes. -/
structure Build where
  ready : Bool
  drain : Bool
  status : Option BuildStatus
  cancelled : Bool
  coordinatorAlive : Bool
  cargo : CargoProcess
  descendants : ℕ
  coordinator : WaitPc
  guardian : GuardianPc
  deriving DecidableEq

def Build.new : Build where
  ready := false
  drain := false
  status := none
  cancelled := false
  coordinatorAlive := true
  cargo := .unspawned
  descendants := 0
  coordinator := .loadCancelledFirst
  guardian := .unspawned

/-- What a call meets outside of this state: its error, whether a file was in its place when
the error came, whether a record cannot be parsed, and whether a deadline has passed. -/
structure BuildChance where
  failure : Option IoError
  published : Bool
  malformed : Option String
  expired : Bool
  deriving DecidableEq, Repr

/-- No member of the group is left, so that `killpg` answers `ESRCH`. -/
def Build.groupEmpty (b : Build) : Bool :=
  b.descendants = 0 &&
    match b.cargo with
    | .unspawned | .reaped _ => true
    | .running | .zombie _ => false

def cancelledError : BenchError := .workload "Cargo build cancelled by signal"

def timeoutError : BenchError := .preflight "Cargo build timeout elapsed"

def startupError : BenchError := .state "Cargo crash guardian startup timed out"

def exitedEarly (status : ExitStatus) : BenchError :=
  .state s!"Cargo crash guardian exited before recording status: {status.text}"

/-- `atomic_write`, with an error before or after the file is in its place. -/
def atomicWriteFailure (chance : BuildChance) : Option BenchError :=
  chance.failure.map (BenchError.io (if chance.published then "syncing state directory"
    else "publishing state"))

/-- Whether `atomic_write` has put the file in its place. -/
def BuildChance.written (chance : BuildChance) : Bool :=
  chance.failure.isNone || chance.published

def waitNext (chance : BuildChance) (b : Build) : Option Build :=
  match b.coordinator with
  | .loadCancelledFirst =>
    some { b with
      coordinator := if b.cancelled then .returned (.error cancelledError) else .createState }
  | .createState =>
    some { b with
      coordinator :=
        match chance.failure with
        | some error => .returned (.error (.io "creating build guardian state" error))
        | none => .resolveExecutable }
  | .resolveExecutable =>
    some { b with
      coordinator :=
        match chance.failure with
        | some error => .returned (.error (.io "resolving Benchctl executable" error))
        | none => .spawnGuardian }
  | .spawnGuardian =>
    match chance.failure with
    | some error =>
      some { b with
        coordinator := .returned (.error (.io "starting Cargo crash guardian" error)) }
    | none => some { b with guardian := .checkParentFirst, coordinator := .checkStatus }
  | .checkStatus =>
    some { b with coordinator := if b.status.isSome then .readStatus else .loadCancelled }
  | .readStatus =>
    some { b with
      coordinator :=
        match chance.failure, chance.malformed, b.status with
        | some error, _, _ => .returned (.error (.io "reading Cargo status" error))
        | none, some error, _ => .returned (.error (.json "reading Cargo status" error))
        | none, none, some status => .waitGuardian (.ok status)
        | none, none, none => .returned (.error (.io "reading Cargo status" ⟨"no such file"⟩)) }
  | .loadCancelled =>
    some { b with
      coordinator := if b.cancelled then .writeDrain cancelledError else .checkTimeout }
  | .checkTimeout =>
    some { b with
      coordinator := if chance.expired then .writeDrain timeoutError else .tryWaitGuardian }
  | .tryWaitGuardian =>
    some { b with
      coordinator :=
        match chance.failure, b.guardian with
        | some error, _ => .returned (.error (.io "checking Cargo crash guardian" error))
        | none, .exited status => .returned (.error (exitedEarly status))
        | none, _ => .checkReady }
  | .checkReady =>
    some { b with coordinator := if b.ready then .checkStatus else .checkStartup }
  | .checkStartup =>
    some { b with
      coordinator := if chance.expired then .writeDrain startupError else .checkStatus }
  | .writeDrain reason =>
    some { b with
      drain := b.drain || chance.written
      coordinator :=
        match atomicWriteFailure chance with
        | some error => .returned (.error error)
        | none => .waitGuardian (.error reason) }
  | .waitGuardian after =>
    match chance.failure with
    | some error =>
      some { b with
        coordinator := .returned (.error (.io "reaping Cargo crash guardian" error)) }
    | none =>
      match b.guardian with
      | .exited status =>
        some { b with
          coordinator :=
            if status.success then
              .returned after
            else
              .returned (.error (.state s!"Cargo crash guardian exited with {status.text}")) }
      | _ => none
  | .returned _ => none

/-- How a drain goes on. -/
inductive DrainOutcome where
  | next (due : DrainPc)
  | empty
  | failed (error : BenchError)
  deriving DecidableEq

/-- Both drains; only `terminate_cargo_group` reaps Cargo in its loops. -/
def drainNext (reaps : Bool) (chance : BuildChance) (empty : Bool) : DrainPc → DrainOutcome
  | .signal kill =>
    match chance.failure with
    | some error =>
      if empty then .next (.checkGrace kill)
      else .failed (.state s!"cannot signal Cargo process group: {error.message}")
    | none => .next (.checkGrace kill)
  | .checkGrace kill =>
    if chance.expired then
      if kill then .failed (.state "Cargo process group could not be proved empty")
      else .next (.signal true)
    else
      .next (if reaps then .tryWait kill else .inspect kill)
  | .tryWait kill =>
    match chance.failure with
    | some error =>
      .failed (.io (if kill then "reaping killed Cargo" else "checking Cargo during drain") error)
    | none => .next (.inspect kill)
  | .inspect kill =>
    if empty then .empty
    else
      match chance.failure with
      | some error =>
        .failed (.state s!"cannot inspect Cargo process group: {error.message}")
      | none => .next (.checkGrace kill)

/-- `try_wait` takes the status of a Cargo that has ended. -/
def CargoProcess.reap : CargoProcess → CargoProcess
  | .zombie status => .reaped status
  | other => other

/-- What the guardian does once a termination has failed. -/
def GuardianPc.terminationFailed (cause : Option BenchError) (error : BenchError) : GuardianPc :=
  match cause with
  | none => .terminateGroup (some error) (.signal false)
  | some cause =>
    .exited (exitStatusOf (.error (.state (s!"Cargo guardian failed ({cause.display}); " ++
      s!"cleanup also failed ({error.display})"))))

/-- A failure of `monitor_cargo` is followed by the cleanup. -/
def GuardianPc.monitorFailed (error : BenchError) : GuardianPc :=
  .terminateGroup (some error) (.signal false)

def guardianNext (chance : BuildChance) (b : Build) : Option Build :=
  match b.guardian with
  | .unspawned => none
  | .checkParentFirst =>
    some { b with
      guardian := if b.coordinatorAlive then .openStdout else .exited (exitStatusOf (.ok ())) }
  | .openStdout =>
    some { b with
      guardian :=
        match chance.failure with
        | some error => .exited (exitStatusOf (.error (.io "opening Cargo message log" error)))
        | none => .spawnCargo }
  | .spawnCargo =>
    match chance.failure with
    | some error =>
      some { b with guardian := .exited (exitStatusOf (.error (.io "starting Cargo" error))) }
    | none => some { b with cargo := .running, guardian := .writeReady }
  | .writeReady =>
    some { b with
      ready := b.ready || chance.written
      guardian :=
        match atomicWriteFailure chance with
        | some error => .monitorFailed error
        | none => .checkDrain }
  | .checkDrain =>
    some { b with
      guardian := if b.drain then .terminateGroup none (.signal false) else .checkParent }
  | .checkParent =>
    some { b with
      guardian :=
        if b.coordinatorAlive then .tryWaitCargo else .terminateGroup none (.signal false) }
  | .tryWaitCargo =>
    match chance.failure with
    | some error => some { b with guardian := .monitorFailed (.io "waiting for Cargo" error) }
    | none =>
      some { b with
        cargo := b.cargo.reap
        guardian :=
          match b.cargo.reap with
          | .reaped status => .drainGroup status (.signal false)
          | _ => .checkDrain }
  | .drainGroup status due =>
    some { b with
      guardian :=
        match drainNext false chance b.groupEmpty due with
        | .next due => .drainGroup status due
        | .empty => .writeStatus status
        | .failed error => .monitorFailed error }
  | .writeStatus status =>
    some { b with
      status := if chance.written then some status else b.status
      guardian :=
        match atomicWriteFailure chance with
        | some error => .monitorFailed error
        | none => .exited (exitStatusOf (.ok ())) }
  | .terminateGroup cause due =>
    some { b with
      cargo :=
        match due with
        | .tryWait _ => if chance.failure.isNone then b.cargo.reap else b.cargo
        | _ => b.cargo
      guardian :=
        match drainNext true chance b.groupEmpty due with
        | .next due => .terminateGroup cause due
        | .empty => .exited (exitStatusOf (cause.elim (.ok ()) .error))
        | .failed error => .terminationFailed cause error }
  | .exited _ => none

/-- What happens to the processes from outside: Cargo and the processes of its group end, a live one
starts another, the build is cancelled, the coordinator dies, the guardian is killed, and Cargo is
reaped by somebody else once the guardian is gone. The guardian's directory is temporary and goes
when `guarded_cargo` returns. -/
inductive BuildEnv : Build → Build → Prop where
  | cargoEnds (b : Build) (status : BuildStatus) : b.cargo = .running →
      BuildEnv b { b with cargo := .zombie status }
  | forks (b : Build) : b.cargo = .running ∨ 0 < b.descendants →
      BuildEnv b { b with descendants := b.descendants + 1 }
  | descendantEnds (b : Build) : 0 < b.descendants →
      BuildEnv b { b with descendants := b.descendants - 1 }
  | cancel (b : Build) : BuildEnv b { b with cancelled := true }
  | coordinatorDies (b : Build) : BuildEnv b { b with coordinatorAlive := false }
  | guardianKilled (b : Build) (status : ExitStatus) : b.guardian ≠ .unspawned →
      (∀ other, b.guardian ≠ .exited other) → status.success = false →
      BuildEnv b { b with guardian := .exited status }
  | orphanReaped (b : Build) (status : BuildStatus) : b.cargo = .zombie status →
      (∃ other, b.guardian = .exited other) → BuildEnv b { b with cargo := .reaped status }
  | stateRemoved (b : Build) (result : Except BenchError BuildStatus) :
      b.coordinator = .returned result →
      BuildEnv b { b with ready := false, drain := false, status := none }

inductive BuildStep : Build → Build → Prop where
  | coordinator {b b' : Build} (chance : BuildChance) : b.coordinatorAlive = true →
      waitNext chance b = some b' → BuildStep b b'
  | guardian {b b' : Build} (chance : BuildChance) : guardianNext chance b = some b' →
      BuildStep b b'
  | environment {b b' : Build} : BuildEnv b b' → BuildStep b b'

abbrev BuildReach : Build → Build → Prop := Relation.ReflTransGen BuildStep

end Snoozer.Benchctl
