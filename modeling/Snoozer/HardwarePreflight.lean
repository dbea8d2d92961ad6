import Snoozer.CpuCapabilities

/-! The process-wide preflight of `src/strategy.rs`: the configuration that the guards admit,
and the functional probe, a calibrated wait and up to sixteen trials with a helper thread.
Durations and instants are nanoseconds. -/
namespace Snoozer
open Interactive Fallible

def HardwareConfig.backend : HardwareConfig → HardwareBackend
  | .amd _ => .amdMwaitx
  | .intel _ => .intelUmwait

structure PreflightReport where
  backend : HardwareBackend
  attempts : ℕ
  verifiedStoreWakes : ℕ
  baselineWait : ℕ
  deriving DecidableEq, Repr

structure PreparedHardwareWait where
  config : HardwareConfig
  report : PreflightReport
  deriving DecidableEq, Repr

abbrev Preflight := Fallible PreflightOp PreflightAns HardwareWaitError

def guarded {α : Type} (result : Except HardwareWaitError α) : Preflight α :=
  ExceptT.mk (Prog.ret result)

def unfailing {α : Type} (p : PreflightProg α) : Preflight α := ExceptT.lift p

def prepareHardwareConfig (detected : Capabilities) (userspaceTscIsEnabled : PreflightProg Bool)
    (calibrateAmdTimerHz calibrateIntelTimerHz : PreflightProg (Option ℕ)) :
    Preflight HardwareConfig := do
  let backend ← guarded ((selectBackend detected).mapError unsupported)
  guarded (requireSharedTimerCapabilities detected)
  if !(← unfailing userspaceTscIsEnabled) then
    throw (unsupported .tscAccessDisabled)
  else
    match backend with
    | .amdMwaitx =>
      match ← unfailing calibrateAmdTimerHz with
      | some timerHz => return .amd (AmdConfig.new timerHz)
      | none => throw (unsupported .unstableTimerCalibration)
    | .intelUmwait =>
      match ← unfailing calibrateIntelTimerHz with
      | some timerHz => return .intel (IntelConfig.new timerHz)
      | none => throw (unsupported .unstableTimerCalibration)

def preflightBaselineAttempts : ℕ := 5
def preflightStoreAttempts : ℕ := 16
def preflightRequiredStoreObservations : ℕ := 2
def preflightMinBlock : ℕ := 1000
def preflightHelperDeadline : ℕ := 20000000

/-- `Duration::MAX`. -/
def durationMax : ℕ := (2 ^ 64 - 1) * 1000000000 + 999999999

structure PreflightTrialEvidence where
  helperOverlapped : Bool
  verifiedStoreWake : Bool
  deriving DecidableEq, Repr

def classifyPreflightTrial (publishedAt : Option ℕ) (waitFinished observed elapsed
    wakeThreshold : ℕ) : PreflightTrialEvidence :=
  let helperOverlapped := publishedAt.any fun published => published ≤ waitFinished
  { helperOverlapped
    verifiedStoreWake := helperOverlapped && observed ≠ 0 && elapsed < wakeThreshold }

def concludePreflight (backend : HardwareBackend) (attempts verifiedStoreWakes helperOverlaps
    baselineWait : ℕ) : Except HardwareWaitError PreflightReport :=
  if helperOverlaps = 0 then .error (.preflightFailed backend .inconclusive)
  else if verifiedStoreWakes < preflightRequiredStoreObservations then
    .error (.preflightFailed backend .storeWakeNotObserved)
  else .ok { backend, attempts, verifiedStoreWakes, baselineWait }

def preflightNow : PreflightProg ℕ := Prog.perform PreflightOp.instantNow

/-- The calls of a wait, as calls of the preflight. -/
def waiting {α : Type} (p : WaitProg ℕ α) : PreflightProg α :=
  p.handle fun op => Prog.perform (PreflightOp.wait op)

def baselineTarget : WaitableAtomic := ⟨0⟩

/-- The target of the current trial. -/
def preflightTarget : WaitableAtomic := ⟨1⟩

/-- The loop over `baselines`. -/
def measureBaselines (config : HardwareConfig) : ℕ → PreflightProg (List ℕ)
  | 0 => return []
  | n + 1 => do
    let started ← preflightNow
    let _ ← waiting (hardwareWaitUntimed config baselineTarget 0)
    let finished ← preflightNow
    let rest ← measureBaselines config n
    return (finished - started) :: rest

def wakeThreshold (baselineWait : ℕ) : ℕ := min (baselineWait * 3) durationMax / 4

def producerDelay (baselineWait : ℕ) : ℕ := min (max (baselineWait / 16) 1000) 20000

/-- One store trial, as its waiter sees it. -/
def preflightTrial (config : HardwareConfig) (baselineWait : ℕ) :
    PreflightProg PreflightTrialEvidence := do
  Prog.perform (PreflightOp.startTrial (producerDelay baselineWait))
  let started ← preflightNow
  let observed ← waiting (preflightWaitOnce config preflightTarget)
  let waitFinished ← preflightNow
  let publishedAt ← Prog.perform PreflightOp.receive
  return classifyPreflightTrial publishedAt waitFinished observed (waitFinished - started)
    (wakeThreshold baselineWait)

/-- The counters of the loop over the store trials. -/
structure TrialCounts where
  attempts : ℕ
  verifiedStoreWakes : ℕ
  helperOverlaps : ℕ
  deriving DecidableEq, Repr

def TrialCounts.count (counts : TrialCounts) (evidence : PreflightTrialEvidence) :
    TrialCounts where
  attempts := counts.attempts + 1
  verifiedStoreWakes := counts.verifiedStoreWakes + if evidence.verifiedStoreWake then 1 else 0
  helperOverlaps := counts.helperOverlaps + if evidence.helperOverlapped then 1 else 0

/-- The `for _ in 0..PREFLIGHT_STORE_ATTEMPTS` loop, left early with enough evidence. -/
def storeTrials (config : HardwareConfig) (baselineWait : ℕ) :
    ℕ → TrialCounts → PreflightProg TrialCounts
  | 0, counts => return counts
  | n + 1, counts => do
    let evidence ← preflightTrial config baselineWait
    let counts := counts.count evidence
    if evidence.verifiedStoreWake ∧
        counts.verifiedStoreWakes ≥ preflightRequiredStoreObservations then
      return counts
    else
      storeTrials config baselineWait n counts

def functionalPreflight (config : HardwareConfig) : Preflight PreflightReport := do
  let baselines ← unfailing (measureBaselines config preflightBaselineAttempts)
  let baselineWait := (baselines.insertionSort (· ≤ ·)).getD (baselines.length / 2) 0
  if baselineWait < preflightMinBlock then
    throw (.preflightFailed config.backend .waitDidNotBlock)
  else
    let counts ← unfailing (storeTrials config baselineWait preflightStoreAttempts ⟨0, 0, 0⟩)
    guarded (concludePreflight config.backend counts.attempts counts.verifiedStoreWakes
      counts.helperOverlaps baselineWait)

def prepareAndProbeHardwareWait (prepare : Preflight HardwareConfig)
    (probe : HardwareConfig → Preflight PreflightReport) : Preflight PreparedHardwareWait := do
  let config ← prepare
  let report ← probe config
  return { config, report }

/-- With the detection that `capabilities()` caches. -/
def runHardwarePreflight : Preflight PreparedHardwareWait :=
  prepareAndProbeHardwareWait
    (do
      let detected ← unfailing detectCapabilities
      prepareHardwareConfig detected Intel.userspaceTscIsEnabled Amd.calibrateTimerHz
        Intel.calibrateTimerHz)
    functionalPreflight

end Snoozer
