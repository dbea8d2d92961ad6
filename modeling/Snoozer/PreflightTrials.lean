import Snoozer.HardwarePreflight
import Snoozer.ProgramPool

/-! The functional probe together with its helpers: every store trial has a helper thread, a
target, a handoff flag and a channel of its own, and the threads interleave in any way. The
clock is monotone and otherwise arbitrary, and a helper may be late or never run. -/
namespace Snoozer
open Interactive

/-- Calls of the waiter, and of the helper thread of one trial. `begin` is the start of the
thread, which is answered by `producer_delay`. -/
inductive TrialOp where
  | waiter (op : PreflightOp)
  | begin
  | loadHandoff
  | now
  | spin
  | storeTarget
  | send (published : Option ℕ)
  deriving DecidableEq

abbrev TrialAns : TrialOp → Type
  | .waiter op => PreflightAns op
  | .begin => ℕ
  | .loadHandoff => Bool
  | .now => ℕ
  | .spin => Unit
  | .storeTarget => Unit
  | .send _ => Unit

abbrev TrialProg := Prog TrialOp TrialAns

/-- The closure that a trial spawns. -/
def preflightHelper : TrialProg Unit := do
  let producerDelay ← Prog.perform TrialOp.begin
  let started ← Prog.perform TrialOp.now
  let deadline := started + preflightHelperDeadline
  Prog.loop (do
    if ← Prog.perform TrialOp.loadHandoff then
      return some true
    else
      let now ← Prog.perform TrialOp.now
      if now ≥ deadline then
        return some false
      else
        Prog.perform TrialOp.spin
        return none) fun handedOff => do
  if handedOff then
    let delayStarted ← Prog.perform TrialOp.now
    Prog.loop (do
      let now ← Prog.perform TrialOp.now
      if now - delayStarted < producerDelay then
        Prog.perform TrialOp.spin
        return none
      else
        return some ()) fun _ => do
    Prog.perform TrialOp.storeTarget
    let published ← Prog.perform TrialOp.now
    Prog.perform (TrialOp.send (some published))
  else
    Prog.perform (TrialOp.send none)

/-- What is recorded, with the number of its trial, which counts from one; zero are the
baselines. -/
inductive TrialEvent where
  | reading (trial x : ℕ)
  | armed (trial : ℕ)
  | handedOff (trial : ℕ)
  | loaded (trial value : ℕ)
  | stored (trial : ℕ)
  | received (trial : ℕ) (published : Option ℕ)
  deriving DecidableEq, Repr

structure TrialWorld where
  clock : ℕ
  trials : ℕ
  delay : ℕ → ℕ
  target : ℕ → ℕ
  handoff : ℕ → Bool
  channel : ℕ → Option (Option ℕ)
  log : List TrialEvent

namespace TrialWorld

def initial : TrialWorld := ⟨0, 0, fun _ => 0, fun _ => 0, fun _ => false, fun _ => none, []⟩

def record (s : TrialWorld) (e : TrialEvent) : TrialWorld := { s with log := s.log ++ [e] }

/-- The waiter sees the target of its own trial; nobody stores to the target of the baselines. -/
def read (s : TrialWorld) (address : ℕ) : ℕ :=
  if address = preflightTarget.address then s.target s.trials else 0

/-- The instructions and accesses of a wait. -/
def actWait : (op : WaitOp ℕ) → TrialWorld → WaitAns ℕ op → TrialWorld → Prop
  | .load address _, s, (v : ℕ), s' => v = s.read address ∧
    s' = if address = preflightTarget.address then s.record (.loaded s.trials v) else s
  | .monitorx address, s, _, s' | .umonitor address, s, _, s' =>
    s' = if address = preflightTarget.address then s.record (.armed s.trials) else s
  | .storeHandoff, s, _, s' =>
    s' = { s.record (.handedOff s.trials) with
      handoff := Function.update s.handoff s.trials true }
  | _, s, _, s' => s' = s

def actWaiter : (op : PreflightOp) → TrialWorld → PreflightAns op → TrialWorld → Prop
  | .instantNow, s, (x : ℕ), s' => s.clock ≤ x ∧
    s' = { s.record (.reading s.trials x) with clock := x }
  | .wait op, s, x, s' => actWait op s x s'
  | .startTrial producerDelay, s, _, s' =>
    s' = { s with
      trials := s.trials + 1
      delay := Function.update s.delay (s.trials + 1) producerDelay }
  | .receive, s, (x : Option ℕ), s' => x = (s.channel s.trials).join ∧
    s' = s.record (.received s.trials x)
  | _, s, _, s' => s' = s

/-- The calls of the helper of one trial. -/
def actHelper (trial : ℕ) : (op : TrialOp) → TrialWorld → TrialAns op → TrialWorld → Prop
  | .begin, s, x, s' => 0 < trial ∧ trial ≤ s.trials ∧ x = s.delay trial ∧ s' = s
  | .loadHandoff, s, x, s' => x = s.handoff trial ∧ s' = s
  | .now, s, x, s' => s.clock ≤ x ∧ s' = { s with clock := x }
  | .spin, s, _, s' => s' = s
  | .storeTarget, s, _, s' =>
    s' = { s.record (.stored trial) with target := Function.update s.target trial 1 }
  | .send published, s, _, s' =>
    s' = { s with channel := Function.update s.channel trial (some published) }
  | .waiter _, _, _, _ => False

end TrialWorld

/-- The waiter is the party `none`, the helper of each trial is named by its number. -/
def trialParties : Parties (Option ℕ) TrialOp TrialAns TrialWorld where
  act
    | none, .waiter op => TrialWorld.actWaiter op
    | none, _ => fun _ _ _ => False
    | some trial, op => TrialWorld.actHelper trial op
  env _ _ := False

abbrev TrialResult : Option ℕ → Type
  | none => Except HardwareWaitError PreflightReport
  | some _ => Unit

def trialPool (config : HardwareConfig) : Pool (Option ℕ) TrialOp TrialAns TrialResult
  | none => (functionalPreflight config).run.handle fun op => Prog.perform (TrialOp.waiter op)
  | some _ => preflightHelper

namespace TrialEvent

def readings (log : List TrialEvent) (trial : ℕ) : List ℕ :=
  log.filterMap fun
    | reading k x => if k = trial then some x else none
    | _ => none

def loads (log : List TrialEvent) (trial : ℕ) : List ℕ :=
  log.filterMap fun
    | loaded k v => if k = trial then some v else none
    | _ => none

def receipts (log : List TrialEvent) (trial : ℕ) : List (Option ℕ) :=
  log.filterMap fun
    | received k p => if k = trial then some p else none
    | _ => none

/-- Differences of consecutive pairs. -/
def durations : List ℕ → List ℕ
  | a :: b :: rest => (b - a) :: durations rest
  | _ => []

def median (baselines : List ℕ) : ℕ :=
  (baselines.insertionSort (· ≤ ·)).getD (baselines.length / 2) 0

def baselineWait (log : List TrialEvent) : ℕ := median (durations (readings log 0))

def started (log : List TrialEvent) (trial : ℕ) : ℕ := (readings log trial).getD 0 0

def waitFinished (log : List TrialEvent) (trial : ℕ) : ℕ := (readings log trial).getD 1 0

/-- The value that `preflight_wait_once` returned: that of its last load. -/
def observed (log : List TrialEvent) (trial : ℕ) : ℕ := (loads log trial).getLastD 0

def publishedAt (log : List TrialEvent) (trial : ℕ) : Option ℕ := (receipts log trial).headD none

def elapsed (log : List TrialEvent) (trial : ℕ) : ℕ := waitFinished log trial - started log trial

def evidence (log : List TrialEvent) (trial : ℕ) : PreflightTrialEvidence :=
  classifyPreflightTrial (publishedAt log trial) (waitFinished log trial) (observed log trial)
    (elapsed log trial) (wakeThreshold (baselineWait log))

end TrialEvent

end Snoozer
