import Snoozer.LatencyEvents
import Snoozer.Parker
import Mathlib.Logic.Relation
import Mathlib.Algebra.Group.Nat.Defs

/-! One trial: a waiter, a producer, a victim and the thread that drives them share six atomics and,
on the surfaces that park, the token of the waiter. A step is one access to what they share, and the
threads' steps interleave in any order. -/
namespace Snoozer.WakeLatency

/-- `run_std_park` refuses every case but the raw one. -/
structure TrialConfig where
  surface : Surface
  filtering : Filtering
  workload : Workload
  warmupEvents : ℕ
  maxSamples : ℕ
  std_raw : surface = .stdPark → filtering = .raw
  deriving DecidableEq, Repr

structure TrialShared where
  generation : ℕ
  sentCycles : ℕ
  acknowledged : ℕ
  ready : ℕ
  go : Bool
  stop : Bool
  deriving DecidableEq, Repr

def TrialShared.new : TrialShared := ⟨0, 0, 0, 0, false, false⟩

def wrappingAdd64 (a b : ℕ) : ℕ := (a + b) % 2 ^ 64

/-! ### Where each thread is

A position is named after the access that comes next. -/

/-- Inside `abort_startup`. -/
inductive AbortPc where
  | storeStop | storeGo | addGeneration
  deriving DecidableEq, Repr

def AbortPc.next : AbortPc → Option AbortPc
  | storeStop => some storeGo
  | storeGo => some addGeneration
  | addGeneration => none

inductive WaiterError where
  | pin (error : String)
  | sendHandle (error : String)
  | aborted
  deriving DecidableEq, Repr

def WaiterError.text : WaiterError → String
  | pin error => error
  | sendHandle error => error
  | aborted => "benchmark startup aborted before waiter began waiting"

/-- `observed` is the generation last seen and `unclassified` counts the wakes of the current wait
that came without a new one. -/
inductive WaiterPc where
  | pinCurrent
  | abortStartup (error : String) (due : AbortPc)
  | sendHandle
  | captureGeneration
  | announceReady (observed : ℕ)
  | loadGo (observed : ℕ)
  | loadStopAtStart (observed : ℕ)
  | waitDirect (observed unclassified : ℕ)
  | reloadGeneration (observed unclassified : ℕ)
  | compareGeneration (observed unclassified : ℕ)
  | park (observed unclassified : ℕ)
  | countWake (observed unclassified : ℕ)
  | rereadGeneration (observed unclassified : ℕ)
  | loadStop (observed unclassified : ℕ)
  | stamp (observed unclassified : ℕ)
  | loadSent (observed unclassified : ℕ) (received : Stamp)
  | storeStop (observed : ℕ)
  | storeAcknowledged (observed : ℕ)
  | returned (result : Except WaiterError Unit)
  deriving DecidableEq, Repr

inductive ProducerError where
  | pin (error : String)
  | migrated
  deriving DecidableEq, Repr

def ProducerError.text : ProducerError → String
  | pin error => error
  | migrated => "producer migrated despite fixed affinity"

inductive ProducerPc where
  | unspawned
  | pinCurrent
  | abortStartup (error : ProducerError) (due : AbortPc)
  | wakeAborted (error : ProducerError)
  | announceReady
  | loadGo
  | loadStop (sequence : ℕ)
  | loadAcknowledged (sequence : ℕ)
  | loadStopUnacknowledged (sequence : ℕ)
  | loadStopAfterWait (sequence : ℕ)
  | cancellableGap (sequence : ℕ)
  | loadStopAfterGap (sequence : ℕ)
  | stamp (sequence : ℕ)
  | storeSent (sequence sent : ℕ)
  | storeGeneration (sequence sent : ℕ)
  | wake (sequence : ℕ)
  | exitStop
  | exitGeneration
  | exitWake
  | returned (result : Except ProducerError Unit)
  deriving DecidableEq, Repr

inductive VictimError where
  | pin (error : String)
  | migrated
  | noChunks
  deriving DecidableEq, Repr

def VictimError.text : VictimError → String
  | pin error => error
  | migrated => "victim migrated or observed a non-monotonic TSC"
  | noChunks => "victim produced no measurable chunks"

inductive VictimPc where
  | unspawned
  | pinCurrent
  | abortStartup (error : String) (due : AbortPc)
  | announceReady
  | loadGo
  | loadStop (chunks : ℕ)
  | returned (result : Except VictimError Unit)
  deriving DecidableEq, Repr

inductive DriveError where
  | receiveHandle (error : String)
  | threadFailed
  | startupTimeout
  deriving DecidableEq, Repr

def DriveError.text : DriveError → String
  | receiveHandle error => error
  | threadFailed => "a benchmark thread failed during startup"
  | startupTimeout => "benchmark threads did not reach the start barrier"

/-- The thread that spawns the others and runs `drive_trial`. -/
inductive ControllerPc where
  | receiveHandle
  | spawnProducer
  | spawnVictim
  | loadReady
  | loadStop
  | checkTimeout
  | storeGoFailed
  | abortStartup (due : AbortPc)
  | storeGo
  | preciseDelay
  | storeStop
  | returned (result : Except DriveError Unit)
  deriving DecidableEq, Repr

/-- A generation that the producer stores, and the time stamp that it has stored for it. -/
structure Publication where
  generation : ℕ
  sentCycles : ℕ
  deriving DecidableEq, Repr

def Wake.publication (wake : Wake) : Publication := ⟨wake.generation, wake.sentCycles⟩

/-- The threads and what they share; `published` and `shutdowns` remember what the producer has
published and which generations the threads have made in order to shut down. -/
structure Trial where
  shared : TrialShared
  token : UInt32
  waiter : WaiterPc
  locals : Waiter
  waiterAux : ℕ
  producer : ProducerPc
  producerAux : ℕ
  victim : VictimPc
  controller : ControllerPc
  published : List Publication
  shutdowns : List ℕ
  deriving DecidableEq, Repr

def Trial.new (config : TrialConfig) : Trial where
  shared := .new
  token := emptyToken
  waiter := .pinCurrent
  locals := .new config.filtering
  waiterAux := 0
  producer := .unspawned
  producerAux := 0
  victim := .unspawned
  controller := if config.surface = .stdPark then .receiveHandle else .spawnProducer
  published := []
  shutdowns := []

/-- What a step meets outside of what the threads share: the error of a call that can fail, the
stamp that is taken, and whether a deadline has passed or a wait returns without a reason. -/
structure Chance where
  failure : Option String
  stamp : Stamp
  expired : Bool
  deriving DecidableEq, Repr

/-! ### What the threads do to the shared state -/

namespace Trial

def storeStop (t : Trial) : Trial := { t with shared.stop := true }

def storeGo (t : Trial) : Trial := { t with shared.go := true }

def addReady (t : Trial) : Trial := { t with shared.ready := t.shared.ready + 1 }

/-- The `fetch_add` on the generation that ends every wait. -/
def addGeneration (t : Trial) : Trial :=
  let generation := wrappingAdd64 t.shared.generation 1
  { t with shared.generation := generation, shutdowns := t.shutdowns ++ [generation] }

/-- The step of `abort_startup` that is due. -/
def abortStartup (t : Trial) : AbortPc → Trial
  | .storeStop => t.storeStop
  | .storeGo => t.storeGo
  | .addGeneration => t.addGeneration

/-- The closure `wake` of each surface. -/
def wake (surface : Surface) (t : Trial) : Trial :=
  { t with
    token :=
      match surface with
      | .direct => t.token
      | .singleParker => unparkToken .single t.token
      | .multiParker => unparkToken .multi t.token
      | .stdPark => notifiedToken }

def publish (t : Trial) (sequence sent : ℕ) : Trial :=
  { t with shared.generation := sequence, published := t.published ++ [⟨sequence, sent⟩] }

/-- What `record_sample` does to the variables of the waiter once it has read the time stamp. -/
def record (config : TrialConfig) (t : Trial) (observed unclassified : ℕ) (received : Stamp) :
    Trial :=
  let wake : Wake := ⟨unclassified, observed, false, received, t.shared.sentCycles⟩
  { t with
    locals := recordSample t.waiterAux config.warmupEvents config.maxSamples wake
      (t.locals.countUnclassified wake) }

end Trial

/-! ### The waiter -/

/-- The head of the loop of `run_direct`, and of those of `run_parker` and `run_std_park`. -/
def WaiterPc.loopHead (surface : Surface) (observed : ℕ) : WaiterPc :=
  match surface with
  | .direct => .waitDirect observed 0
  | .singleParker | .multiParker | .stdPark => .compareGeneration observed 0

/-- The handle of the thread is in the channel. -/
def WaiterPc.sentHandle : WaiterPc → Bool
  | .pinCurrent | .abortStartup _ _ | .sendHandle => false
  | _ => true

/-- After a `park` that has returned. -/
def WaiterPc.parked (surface : Surface) (observed unclassified : ℕ) (notified : Bool) : WaiterPc :=
  match surface with
  | .stdPark => .countWake observed unclassified
  | _ => .compareGeneration observed (if notified then unclassified else unclassified + 1)

/-- A wait of a strategy returns the new generation; one that is not filtered may also return
without any. A `park` returns when it has taken the token, one that is not filtered at any time. -/
def waiterNext (config : TrialConfig) (chance : Chance) (t : Trial) : Option Trial :=
  match t.waiter with
  | .pinCurrent =>
    match chance.failure with
    | some error => some { t with waiter := .abortStartup error .storeStop }
    | none => some { t with
        waiterAux := chance.stamp.auxiliary
        waiter := if config.surface = .stdPark then .sendHandle else .captureGeneration }
  | .abortStartup error due =>
    some { t.abortStartup due with
      waiter := due.next.elim (.returned (.error (.pin error))) (.abortStartup error) }
  | .sendHandle =>
    match chance.failure with
    | some error => some { t with waiter := .returned (.error (.sendHandle error)) }
    | none => some { t with waiter := .captureGeneration }
  | .captureGeneration => some { t with waiter := .announceReady t.shared.generation }
  | .announceReady observed => some { t.addReady with waiter := .loadGo observed }
  | .loadGo observed =>
    some { t with waiter := if t.shared.go then .loadStopAtStart observed else .loadGo observed }
  | .loadStopAtStart observed =>
    some { t with
      waiter :=
        if t.shared.stop then
          .returned (.error .aborted)
        else
          .loopHead config.surface observed }
  | .waitDirect observed unclassified =>
    if config.filtering = .raw ∧ chance.expired = true then
      some { t with waiter := .reloadGeneration observed (unclassified + 1) }
    else if t.shared.generation ≠ observed then
      some { t with waiter := .loadStop t.shared.generation unclassified }
    else
      none
  | .reloadGeneration observed unclassified =>
    some { t with
      waiter :=
        if t.shared.generation ≠ observed then
          .loadStop t.shared.generation unclassified
        else
          .waitDirect observed unclassified }
  | .compareGeneration observed unclassified =>
    some { t with
      waiter :=
        if t.shared.generation = observed then
          .park observed unclassified
        else
          .rereadGeneration observed unclassified }
  | .park observed unclassified =>
    if config.filtering = .raw ∧ chance.expired = true then
      some { t with waiter := .parked config.surface observed unclassified false }
    else if t.token = notifiedToken then
      some { t with
        token := emptyToken
        waiter := .parked config.surface observed unclassified true }
    else
      none
  | .countWake observed unclassified =>
    some { t with
      waiter := .compareGeneration observed
        (if t.shared.generation = observed then unclassified + 1 else unclassified) }
  | .rereadGeneration _ unclassified =>
    some { t with waiter := .loadStop t.shared.generation unclassified }
  | .loadStop observed unclassified =>
    if t.shared.stop then
      some { t with
        locals := t.locals.countUnclassified ⟨unclassified, observed, true, ⟨0, 0⟩, 0⟩
        waiter := .returned (.ok ()) }
    else
      some { t with waiter := .stamp observed unclassified }
  | .stamp observed unclassified =>
    some { t with waiter := .loadSent observed unclassified chance.stamp }
  | .loadSent observed unclassified received =>
    let recorded := t.record config observed unclassified received
    some { recorded with
      waiter :=
        if recorded.locals.stop ≠ t.locals.stop then
          .storeStop observed
        else
          .storeAcknowledged observed }
  | .storeStop observed => some { t.storeStop with waiter := .storeAcknowledged observed }
  | .storeAcknowledged observed =>
    some { t with shared.acknowledged := observed, waiter := .loopHead config.surface observed }
  | .returned _ => none

/-! ### The producer -/

def producerNext (config : TrialConfig) (chance : Chance) (t : Trial) : Option Trial :=
  match t.producer with
  | .unspawned => none
  | .pinCurrent =>
    match chance.failure with
    | some error => some { t with producer := .abortStartup (.pin error) .storeStop }
    | none => some { t with producerAux := chance.stamp.auxiliary, producer := .announceReady }
  | .abortStartup error due =>
    some { t.abortStartup due with
      producer := due.next.elim (.wakeAborted error) (.abortStartup error) }
  | .wakeAborted error =>
    some { t.wake config.surface with producer := .returned (.error error) }
  | .announceReady => some { t.addReady with producer := .loadGo }
  | .loadGo => some { t with producer := if t.shared.go then .loadStop 0 else .loadGo }
  | .loadStop sequence =>
    some { t with producer := if t.shared.stop then .exitStop else .loadAcknowledged sequence }
  | .loadAcknowledged sequence =>
    some { t with
      producer :=
        if t.shared.acknowledged ≠ sequence then
          .loadStopUnacknowledged sequence
        else
          .loadStopAfterWait sequence }
  | .loadStopUnacknowledged sequence =>
    some { t with
      producer :=
        if t.shared.stop then .loadStopAfterWait sequence else .loadAcknowledged sequence }
  | .loadStopAfterWait sequence =>
    some { t with
      producer :=
        if t.shared.stop then
          .exitStop
        else if config.workload = .bursty then
          .cancellableGap sequence
        else
          .stamp (wrappingAdd64 sequence 1) }
  | .cancellableGap sequence =>
    some { t with
      producer :=
        if chance.expired ∨ t.shared.stop then
          .loadStopAfterGap sequence
        else
          .cancellableGap sequence }
  | .loadStopAfterGap sequence =>
    some { t with
      producer :=
        if t.shared.stop then .exitStop else .stamp (wrappingAdd64 sequence 1) }
  | .stamp sequence =>
    some { t with
      producer :=
        if chance.stamp.auxiliary ≠ t.producerAux then
          .abortStartup .migrated .storeStop
        else
          .storeSent sequence chance.stamp.cycles }
  | .storeSent sequence sent =>
    some { t with shared.sentCycles := sent, producer := .storeGeneration sequence sent }
  | .storeGeneration sequence sent =>
    some { t.publish sequence sent with producer := .wake sequence }
  | .wake sequence => some { t.wake config.surface with producer := .loadStop sequence }
  | .exitStop => some { t.storeStop with producer := .exitGeneration }
  | .exitGeneration => some { t.addGeneration with producer := .exitWake }
  | .exitWake => some { t.wake config.surface with producer := .returned (.ok ()) }
  | .returned _ => none

/-! ### The victim -/

def victimNext (chance : Chance) (t : Trial) : Option Trial :=
  match t.victim with
  | .unspawned => none
  | .pinCurrent =>
    match chance.failure with
    | some error => some { t with victim := .abortStartup error .storeStop }
    | none => some { t with victim := .announceReady }
  | .abortStartup error due =>
    some { t.abortStartup due with
      victim := due.next.elim (.returned (.error (.pin error))) (.abortStartup error) }
  | .announceReady => some { t.addReady with victim := .loadGo }
  | .loadGo => some { t with victim := if t.shared.go then .loadStop 0 else .loadGo }
  | .loadStop chunks =>
    some { t with
      victim :=
        if t.shared.stop then
          .returned (if chunks = 0 ∨ chance.expired then .error .noChunks else .ok ())
        else if chance.failure.isSome then
          .returned (.error .migrated)
        else
          .loadStop (chunks + 1) }
  | .returned _ => none

/-! ### The driver -/

def driveTrialNext (chance : Chance) (t : Trial) : Option Trial :=
  match t.controller with
  | .receiveHandle =>
    match chance.failure with
    | some error => some { t with controller := .returned (.error (.receiveHandle error)) }
    | none => if t.waiter.sentHandle then some { t with controller := .spawnProducer } else none
  | .spawnProducer => some { t with producer := .pinCurrent, controller := .spawnVictim }
  | .spawnVictim => some { t with victim := .pinCurrent, controller := .loadReady }
  | .loadReady =>
    some { t with controller := if t.shared.ready ≠ 3 then .loadStop else .storeGo }
  | .loadStop =>
    some { t with controller := if t.shared.stop then .storeGoFailed else .checkTimeout }
  | .checkTimeout =>
    some { t with controller := if chance.expired then .abortStartup .storeStop else .loadReady }
  | .storeGoFailed =>
    some { t.storeGo with controller := .returned (.error .threadFailed) }
  | .abortStartup due =>
    some { t.abortStartup due with
      controller := due.next.elim (.returned (.error .startupTimeout)) .abortStartup }
  | .storeGo => some { t.storeGo with controller := .preciseDelay }
  | .preciseDelay =>
    some { t with controller := if chance.expired then .storeStop else .preciseDelay }
  | .storeStop => some { t.storeStop with controller := .returned (.ok ()) }
  | .returned _ => none

/-- What the surface returns once it has joined the threads; without a handle of the waiter it does
not wait for them. -/
def Trial.conclude (config : TrialConfig) (victimMetrics : VictimMetrics) (t : Trial) :
    Option (Except TrialError ContenderTrial) :=
  match t.controller, t.waiter, t.producer, t.victim with
  | .returned (.error (.receiveHandle error)), _, _, _ => some (.error (.failed error))
  | .returned drive, .returned waiter, .returned producer, .returned victim =>
    some (concludeTrial (drive.mapError DriveError.text)
      ((waiter.mapError WaiterError.text).map fun _ => t.locals.metrics)
      (producer.mapError ProducerError.text)
      ((victim.mapError VictimError.text).map fun _ => victimMetrics) config.maxSamples)
  | _, _, _, _ => none

/-! ### Runs -/

inductive TrialThread where
  | waiter | producer | victim | controller
  deriving DecidableEq, Repr

def trialNext (config : TrialConfig) (chance : Chance) (t : Trial) : TrialThread → Option Trial
  | .waiter => waiterNext config chance t
  | .producer => producerNext config chance t
  | .victim => victimNext chance t
  | .controller => driveTrialNext chance t

def TrialStep (config : TrialConfig) (t t' : Trial) : Prop :=
  ∃ chance thread, trialNext config chance t thread = some t'

abbrev TrialReach (config : TrialConfig) : Trial → Trial → Prop :=
  Relation.ReflTransGen (TrialStep config)

/-- The threads take their steps in the order of the schedule. -/
def Trial.run (config : TrialConfig) : List (TrialThread × Chance) → Trial → Option Trial
  | [], t => some t
  | (thread, chance) :: schedule, t =>
    (trialNext config chance t thread).bind (Trial.run config schedule)

theorem trialReach_of_run {config : TrialConfig} (schedule : List (TrialThread × Chance))
    {t t' : Trial} (h : t.run config schedule = some t') : TrialReach config t t' := by
  induction schedule generalizing t with
  | nil =>
    cases h
    exact .refl
  | cons step schedule ih =>
    obtain ⟨thread, chance⟩ := step
    obtain ⟨t₁, hstep, hrest⟩ := Option.bind_eq_some_iff.mp h
    exact .head ⟨chance, thread, hstep⟩ (ih hrest)

end Snoozer.WakeLatency
