import Snoozer.WaitStrategy
import Snoozer.FallibleProgram
import Mathlib.Data.List.Sort

/-! `src/arch/x86_64` and the guards of `src/strategy.rs`: what CPUID says of a processor,
which backend is selected on it, and who may calibrate a timer. -/
namespace Snoozer
open Interactive

structure CpuidResult where
  eax : BitVec 32
  ebx : BitVec 32
  ecx : BitVec 32
  edx : BitVec 32
  deriving DecidableEq, Repr

/-- Calls of the process-wide preflight. `rdtscp` is answered by EDX, EAX and ECX, the call
of `prctl` by its status and the setting; a trial has a target, a handoff and a helper of
its own, and `receive` is `recv_timeout(..).ok().flatten()` on its channel. -/
inductive PreflightOp where
  | cpuid (leaf subleaf : BitVec 32)
  | prctlGetTsc
  | rdtscp
  | instantNow
  | spinLoop
  | wait (op : WaitOp ℕ)
  | startTrial (producerDelay : ℕ)
  | receive
  deriving DecidableEq

abbrev PreflightAns : PreflightOp → Type
  | .cpuid _ _ => CpuidResult
  | .prctlGetTsc => ℤ × ℤ
  | .rdtscp => BitVec 32 × BitVec 32 × BitVec 32
  | .instantNow => ℕ
  | .spinLoop => Unit
  | .wait op => WaitAns ℕ op
  | .startTrial _ => Unit
  | .receive => Option ℕ

abbrev PreflightProg := Prog PreflightOp PreflightAns

def cpuidCount (leaf subleaf : BitVec 32) : PreflightProg CpuidResult :=
  Prog.perform (PreflightOp.cpuid leaf subleaf)

/-- `__cpuid`. -/
def cpuid (leaf : BitVec 32) : PreflightProg CpuidResult := cpuidCount leaf 0

/-- `available.then(|| __cpuid_count(leaf, 0))`. -/
def readLeaf (available : Bool) (leaf : BitVec 32) : PreflightProg (Option CpuidResult) :=
  if available then do
    let features ← cpuid leaf
    return some features
  else
    return none

structure Capabilities where
  supportedTarget : Bool
  amdVendor : Bool
  intelVendor : Bool
  monitorxMwaitx : Bool
  waitpkg : Bool
  invariantTsc : Bool
  rdtscp : Bool
  deriving DecidableEq, Repr

inductive Strategy where
  | busySpin | spinThenYield | hardwareWait | spinThenHardwareWait
  deriving DecidableEq, Repr

inductive HardwareBackend where
  | amdMwaitx | intelUmwait
  deriving DecidableEq, Repr

inductive UnsupportedReason where
  | unsupportedTarget | unsupportedCpuVendor | missingMonitorxMwaitx | missingWaitpkg
  | missingInvariantTsc | missingRdtscp | tscAccessDisabled | unstableTimerCalibration
  deriving DecidableEq, Repr

structure UnsupportedStrategy where
  strategy : Strategy
  reason : UnsupportedReason
  deriving DecidableEq, Repr

inductive PreflightFailure where
  | waitDidNotBlock | storeWakeNotObserved | inconclusive
  deriving DecidableEq, Repr

inductive HardwareWaitError where
  | preflightRequired
  | preflightPanicked
  | unsupported (error : UnsupportedStrategy)
  | preflightFailed (backend : HardwareBackend) (reason : PreflightFailure)
  deriving DecidableEq, Repr

/-- `u32::from_le_bytes` on four characters. -/
def fromLeBytes (b₀ b₁ b₂ b₃ : Char) : BitVec 32 :=
  BitVec.ofNat 8 b₃.toNat ++ BitVec.ofNat 8 b₂.toNat ++ BitVec.ofNat 8 b₁.toNat ++
    BitVec.ofNat 8 b₀.toNat

def extendedCpuidBase : BitVec 32 := 0x80000000
def extendedFeaturesLeaf : BitVec 32 := 0x80000001
def invariantTscLeaf : BitVec 32 := 0x80000007
def rdtscpBit : BitVec 32 := 1#32 <<< 27
def invariantTscBit : BitVec 32 := 1#32 <<< 8

/-- `features.is_some_and(|features| features & bit != 0)`. -/
def featureBit (features : Option (BitVec 32)) (bit : BitVec 32) : Bool :=
  features.any fun features => features &&& bit ≠ 0

def extendedLeafAvailability (extendedMax : BitVec 32) : Bool × Bool :=
  (decide (extendedMax ≥ extendedFeaturesLeaf), decide (extendedMax ≥ invariantTscLeaf))

def timerCalibrationInterval : ℕ := 2000000
def timerCalibrationSamples : ℕ := 3
def timerCalibrationAttempts : ℕ := 9
def maxCalibrationSpreadPercent : ℕ := 20
def conservativeFrequencyPercent : ℕ := 80

/-- `u64::saturating_mul`. -/
def saturatingMul64 (a b : ℕ) : ℕ := min (a * b) (2 ^ 64 - 1)

/-- The loop of `collect_tsc_frequencies`, with what was collected so far. -/
def collectTscFrequencies (sampleOnce : PreflightProg (Option ℕ)) :
    ℕ → List ℕ → PreflightProg (Option (List ℕ))
  | 0, _ => return none
  | attempts + 1, samples => do
    match ← sampleOnce with
    | some sample =>
      if (samples ++ [sample]).length = timerCalibrationSamples then
        return some (samples ++ [sample])
      else
        collectTscFrequencies sampleOnce attempts (samples ++ [sample])
    | none => collectTscFrequencies sampleOnce attempts samples

def tscFromHalves (high low : BitVec 32) : ℕ := high.toNat * 2 ^ 32 + low.toNat

/-- The counter and the processor it was read on. -/
def readTscOrderedAux : PreflightProg (ℕ × BitVec 32) := do
  let registers ← Prog.perform PreflightOp.rdtscp
  return (tscFromHalves registers.1 registers.2.1, registers.2.2)

def frequencyHz (ticks elapsedNanos : ℕ) : ℕ :=
  max (min (saturatingMul128 ticks 1000000000 / max elapsedNanos 1) (2 ^ 64 - 1)) 1

def tscFrequencyFromObservation (first : ℕ) (firstAux : BitVec 32) (last : ℕ)
    (lastAux : BitVec 32) (elapsedNanos : ℕ) : Option ℕ :=
  if firstAux ≠ lastAux ∨ last ≤ first ∨ elapsedNanos = 0 then none
  else some (frequencyHz (last - first) elapsedNanos)

def sampleTscFrequencyOnce : PreflightProg (Option ℕ) := do
  let started ← Prog.perform PreflightOp.instantNow
  let first ← readTscOrderedAux
  Prog.loop (do
    let now ← Prog.perform PreflightOp.instantNow
    if now - started < timerCalibrationInterval then
      Prog.perform PreflightOp.spinLoop
      return none
    else
      return some ()) fun _ => do
  let last ← readTscOrderedAux
  let now ← Prog.perform PreflightOp.instantNow
  return tscFrequencyFromObservation first.1 first.2 last.1 last.2 (now - started)

/-- The spread test of `conservative_timer_hz`. -/
def spreadTooWide (minimum maximum : ℕ) : Bool :=
  saturatingMul64 (maximum - minimum) 100 > saturatingMul64 maximum maxCalibrationSpreadPercent

def lowerBoundHz (minimum : ℕ) : ℕ := saturatingMul64 minimum conservativeFrequencyPercent / 100

def conservativeTimerHz (samples : List ℕ) : Option ℕ :=
  let sorted := samples.insertionSort (· ≤ ·)
  let minimum := sorted.getD 0 0
  let maximum := sorted.getD (timerCalibrationSamples - 1) 0
  if spreadTooWide minimum maximum then none
  else if lowerBoundHz minimum > 0 then some (lowerBoundHz minimum)
  else none

/-- The body of `calibrate_timer_hz`, behind the vendor's own detection. -/
def calibrateTimerHz (usable : PreflightProg Bool) : PreflightProg (Option ℕ) := do
  if ← usable then
    let samples ← collectTscFrequencies sampleTscFrequencyOnce timerCalibrationAttempts []
    return samples.bind conservativeTimerHz
  else
    return none

namespace Amd

def vendorEbx : BitVec 32 := fromLeBytes 'A' 'u' 't' 'h'
def vendorEdx : BitVec 32 := fromLeBytes 'e' 'n' 't' 'i'
def vendorEcx : BitVec 32 := fromLeBytes 'c' 'A' 'M' 'D'
def monitorxMwaitxBit : BitVec 32 := 1#32 <<< 29

structure CapabilityRegisters where
  vendorEbx : BitVec 32
  vendorEdx : BitVec 32
  vendorEcx : BitVec 32
  extendedFeaturesEcx : Option (BitVec 32)
  extendedFeaturesEdx : Option (BitVec 32)
  invariantFeaturesEdx : Option (BitVec 32)
  deriving DecidableEq, Repr

def decodeCapabilities (registers : CapabilityRegisters) : Capabilities where
  supportedTarget := true
  amdVendor := registers.vendorEbx = vendorEbx && registers.vendorEdx = vendorEdx &&
    registers.vendorEcx = vendorEcx
  intelVendor := false
  monitorxMwaitx := featureBit registers.extendedFeaturesEcx monitorxMwaitxBit
  waitpkg := false
  invariantTsc := featureBit registers.invariantFeaturesEdx invariantTscBit
  rdtscp := featureBit registers.extendedFeaturesEdx rdtscpBit

def detectCapabilities : PreflightProg Capabilities := do
  let vendor ← cpuid 0
  let extended ← cpuid extendedCpuidBase
  let available := extendedLeafAvailability extended.eax
  let extendedFeatures ← readLeaf available.1 extendedFeaturesLeaf
  let invariantFeatures ← readLeaf available.2 invariantTscLeaf
  return decodeCapabilities {
    vendorEbx := vendor.ebx
    vendorEdx := vendor.edx
    vendorEcx := vendor.ecx
    extendedFeaturesEcx := extendedFeatures.map CpuidResult.ecx
    extendedFeaturesEdx := extendedFeatures.map CpuidResult.edx
    invariantFeaturesEdx := invariantFeatures.map CpuidResult.edx }

def timerCalibrationIsUsable (capabilities : Capabilities) : Bool :=
  capabilities.amdVendor && capabilities.monitorxMwaitx && capabilities.invariantTsc &&
    capabilities.rdtscp

def calibrateTimerHz : PreflightProg (Option ℕ) :=
  Snoozer.calibrateTimerHz do return timerCalibrationIsUsable (← detectCapabilities)

end Amd

namespace Intel

def vendorEbx : BitVec 32 := fromLeBytes 'G' 'e' 'n' 'u'
def vendorEdx : BitVec 32 := fromLeBytes 'i' 'n' 'e' 'I'
def vendorEcx : BitVec 32 := fromLeBytes 'n' 't' 'e' 'l'
def waitpkgBit : BitVec 32 := 1#32 <<< 5
def waitpkgLeaf : BitVec 32 := 7
def prTscEnable : ℤ := 1

structure IntelCapabilityRegisters where
  vendorEbx : BitVec 32
  vendorEdx : BitVec 32
  vendorEcx : BitVec 32
  waitpkgFeaturesEcx : Option (BitVec 32)
  extendedFeaturesEdx : Option (BitVec 32)
  invariantFeaturesEdx : Option (BitVec 32)
  deriving DecidableEq, Repr

structure IntelCapabilities where
  intelVendor : Bool
  waitpkg : Bool
  invariantTsc : Bool
  rdtscp : Bool
  timerHz : Option ℕ
  deriving DecidableEq, Repr

def waitpkgLeafIsAvailable (basicMax : BitVec 32) : Bool := basicMax ≥ waitpkgLeaf

def decodeCapabilities (registers : IntelCapabilityRegisters) (calibratedTimerHz : Option ℕ) :
    IntelCapabilities :=
  let intelVendor := registers.vendorEbx = vendorEbx && registers.vendorEdx = vendorEdx &&
    registers.vendorEcx = vendorEcx
  let waitpkg := featureBit registers.waitpkgFeaturesEcx waitpkgBit
  let rdtscp := featureBit registers.extendedFeaturesEdx rdtscpBit
  let invariantTsc := featureBit registers.invariantFeaturesEdx invariantTscBit
  { intelVendor, waitpkg, invariantTsc, rdtscp
    timerHz := if intelVendor && waitpkg && invariantTsc && rdtscp then calibratedTimerHz
      else none }

def detectCapabilities : PreflightProg IntelCapabilities := do
  let vendor ← cpuid 0
  let waitpkgFeatures ← readLeaf (waitpkgLeafIsAvailable vendor.eax) waitpkgLeaf
  let extended ← cpuid extendedCpuidBase
  let available := extendedLeafAvailability extended.eax
  let extendedFeatures ← readLeaf available.1 extendedFeaturesLeaf
  let invariantFeatures ← readLeaf available.2 invariantTscLeaf
  return decodeCapabilities {
    vendorEbx := vendor.ebx
    vendorEdx := vendor.edx
    vendorEcx := vendor.ecx
    waitpkgFeaturesEcx := waitpkgFeatures.map CpuidResult.ecx
    extendedFeaturesEdx := extendedFeatures.map CpuidResult.edx
    invariantFeaturesEdx := invariantFeatures.map CpuidResult.edx } none

def timerCalibrationIsUsable (capabilities : IntelCapabilities) : Bool :=
  capabilities.intelVendor && capabilities.waitpkg && capabilities.invariantTsc &&
    capabilities.rdtscp

def calibrateTimerHz : PreflightProg (Option ℕ) :=
  Snoozer.calibrateTimerHz do return timerCalibrationIsUsable (← detectCapabilities)

def userspaceTscIsEnabled : PreflightProg Bool := do
  let answer ← Prog.perform PreflightOp.prctlGetTsc
  return answer.1 = 0 && answer.2 = prTscEnable

end Intel

/-- `x86_64::detect_capabilities`. -/
def detectCapabilities : PreflightProg Capabilities := do
  let amd ← Amd.detectCapabilities
  let intel ← Intel.detectCapabilities
  return {
    supportedTarget := true
    amdVendor := amd.amdVendor
    intelVendor := intel.intelVendor
    monitorxMwaitx := amd.monitorxMwaitx
    waitpkg := intel.waitpkg
    invariantTsc := if amd.amdVendor then amd.invariantTsc else intel.invariantTsc
    rdtscp := if amd.amdVendor then amd.rdtscp else intel.rdtscp }

def unsupported (reason : UnsupportedReason) : HardwareWaitError :=
  .unsupported ⟨.hardwareWait, reason⟩

def selectBackend (detected : Capabilities) : Except UnsupportedReason HardwareBackend :=
  if !detected.supportedTarget then .error .unsupportedTarget
  else if detected.amdVendor = detected.intelVendor then .error .unsupportedCpuVendor
  else if detected.amdVendor && !detected.monitorxMwaitx then .error .missingMonitorxMwaitx
  else if detected.amdVendor then .ok .amdMwaitx
  else if detected.intelVendor && !detected.waitpkg then .error .missingWaitpkg
  else .ok .intelUmwait

def requireSharedTimerCapabilities (detected : Capabilities) : Except HardwareWaitError Unit :=
  if !detected.invariantTsc then .error (unsupported .missingInvariantTsc)
  else if !detected.rdtscp then .error (unsupported .missingRdtscp)
  else .ok ()

/-- A CPUID response function, by leaf and subleaf. -/
abbrev Cpuid := BitVec 32 → BitVec 32 → CpuidResult

namespace Cpuid

variable (cpu : Cpuid)

/-- The bytes of a register, least significant first. -/
def leBytes (register : BitVec 32) : List (BitVec 8) :=
  [register.extractLsb' 0 8, register.extractLsb' 8 8, register.extractLsb' 16 8,
    register.extractLsb' 24 8]

/-- The vendor registers, in their order, spell the name. -/
def Spells (name : String) : Prop :=
  leBytes (cpu 0 0).ebx ++ leBytes (cpu 0 0).edx ++ leBytes (cpu 0 0).ecx =
    name.toList.map fun c => BitVec.ofNat 8 c.toNat

def basicMax : BitVec 32 := (cpu 0 0).eax

def extendedMax : BitVec 32 := (cpu 0x80000000 0).eax

/-- What detection may read: the two maxima, and leaves that these admit. -/
def Permitted (leaf : BitVec 32) : Prop :=
  leaf = 0 ∨ leaf = 0x80000000 ∨ leaf = 7 ∧ 7 ≤ cpu.basicMax ∨
    0x80000000 < leaf ∧ leaf ≤ cpu.extendedMax

/-- CPUID is answered by the processor and every other call in any way; the state is the
record of the calls. -/
def machine : Machine PreflightOp PreflightAns (List (Event PreflightOp PreflightAns)) where
  act op t x t' := t' = t ++ [⟨op, x⟩] ∧ match op with
    | .cpuid leaf subleaf => x = cpu leaf subleaf
    | _ => True
  env _ _ := False

theorem machine_closed : Closed cpu.machine := fun _ _ h => h

end Cpuid

end Snoozer
