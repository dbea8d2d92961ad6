import Snoozer.ProgramLogic
import Mathlib.Algebra.Group.Nat.Defs

/-! The built-in wait strategies of `src/strategy.rs` as programs over the calls
they make: atomic loads, clock and counter reads, spin hints, yields, and the
monitor and wait instructions. Durations are nanoseconds; machine integers are
naturals with the source's saturation and clamping written out. -/
namespace Snoozer
open Interactive

inductive MemOrdering where
  | relaxed | acquire | release
  deriving DecidableEq, Repr

/-- Everything a waiting thread does to the outside world. `storeHandoff` is the
preflight's `handoff.store(true, Release)`. -/
inductive WaitOp (V : Type) where
  | load (address : ℕ) (ordering : MemOrdering)
  | compareExchange (address : ℕ) (current new : V) (success failure : MemOrdering)
  | instantNow
  | spinLoop
  | yieldNow
  | monitorx (address : ℕ)
  | umonitor (address : ℕ)
  | readTscOrdered
  | mwaitx (timeoutCycles cStateHint : ℕ)
  | umwaitC01 (deadline : ℕ)
  | storeHandoff
  deriving DecidableEq

abbrev WaitAns (V : Type) : WaitOp V → Type
  | .load _ _ => V
  | .compareExchange _ _ _ _ _ => Except V V
  | .instantNow => ℕ
  | .readTscOrdered => ℕ
  | _ => Unit

instance {V : Type} [Inhabited V] : (op : WaitOp V) → Inhabited (WaitAns V op)
  | .load _ _ => ⟨(default : V)⟩
  | .compareExchange _ current _ _ _ => ⟨Except.ok current⟩
  | .instantNow => ⟨(0 : ℕ)⟩
  | .readTscOrdered => ⟨(0 : ℕ)⟩
  | .spinLoop => ⟨()⟩
  | .yieldNow => ⟨()⟩
  | .monitorx _ => ⟨()⟩
  | .umonitor _ => ⟨()⟩
  | .mwaitx _ _ => ⟨()⟩
  | .umwaitC01 _ => ⟨()⟩
  | .storeHandoff => ⟨()⟩

abbrev WaitProg (V : Type) := Prog (WaitOp V) (WaitAns V)

abbrev WaitEvent (V : Type) := Event (WaitOp V) (WaitAns V)

variable {V : Type}

def instantNow : WaitProg V ℕ := Prog.perform WaitOp.instantNow
def spinLoop : WaitProg V Unit := Prog.perform WaitOp.spinLoop
def yieldNow : WaitProg V Unit := Prog.perform WaitOp.yieldNow
def monitorx (address : ℕ) : WaitProg V Unit := Prog.perform (WaitOp.monitorx address)
def umonitor (address : ℕ) : WaitProg V Unit := Prog.perform (WaitOp.umonitor address)
def readTscOrdered : WaitProg V ℕ := Prog.perform WaitOp.readTscOrdered
def mwaitx (timeoutCycles cStateHint : ℕ) : WaitProg V Unit :=
  Prog.perform (WaitOp.mwaitx timeoutCycles cStateHint)
def umwaitC01 (deadline : ℕ) : WaitProg V Unit := Prog.perform (WaitOp.umwaitC01 deadline)
def storeHandoff : WaitProg V Unit := Prog.perform WaitOp.storeHandoff

/-- A waitable atomic, known to the strategies by its address only. -/
structure WaitableAtomic where
  address : ℕ
  deriving DecidableEq, Repr

def WaitableAtomic.load (atomic : WaitableAtomic) (ordering : MemOrdering) : WaitProg V V :=
  Prog.perform (WaitOp.load atomic.address ordering)

def WaitableAtomic.loadAcquire (atomic : WaitableAtomic) : WaitProg V V := atomic.load .acquire

def WaitableAtomic.monitoredAddress (atomic : WaitableAtomic) : ℕ := atomic.address

section Calls

variable {α : Type} (atomic : WaitableAtomic)

@[simp] theorem instantNow_bind (f : ℕ → WaitProg V α) :
    instantNow.bind f = .call .instantNow f := rfl

@[simp] theorem spinLoop_bind (f : Unit → WaitProg V α) : spinLoop.bind f = .call .spinLoop f := rfl

@[simp] theorem yieldNow_bind (f : Unit → WaitProg V α) : yieldNow.bind f = .call .yieldNow f := rfl

@[simp] theorem monitorx_bind (address : ℕ) (f : Unit → WaitProg V α) :
    (monitorx address).bind f = .call (.monitorx address) f := rfl

@[simp] theorem umonitor_bind (address : ℕ) (f : Unit → WaitProg V α) :
    (umonitor address).bind f = .call (.umonitor address) f := rfl

@[simp] theorem readTscOrdered_bind (f : ℕ → WaitProg V α) :
    readTscOrdered.bind f = .call .readTscOrdered f := rfl

@[simp] theorem mwaitx_bind (cycles hint : ℕ) (f : Unit → WaitProg V α) :
    (mwaitx cycles hint).bind f = .call (.mwaitx cycles hint) f := rfl

@[simp] theorem umwaitC01_bind (deadline : ℕ) (f : Unit → WaitProg V α) :
    (umwaitC01 deadline).bind f = .call (.umwaitC01 deadline) f := rfl

@[simp] theorem storeHandoff_bind (f : Unit → WaitProg V α) :
    storeHandoff.bind f = .call .storeHandoff f := rfl

@[simp] theorem load_bind (ordering : MemOrdering) (f : V → WaitProg V α) :
    (atomic.load ordering).bind f = .call (.load atomic.address ordering) f := rfl

@[simp] theorem loadAcquire_bind (f : V → WaitProg V α) :
    atomic.loadAcquire.bind f = .call (.load atomic.address .acquire) f := rfl

end Calls

inductive WaitResult (V : Type) where
  | changed (value : V)
  | unclassified
  deriving DecidableEq, Repr

inductive WaitTimeoutResult (V : Type) where
  | changed (value : V)
  | unclassified
  | timedOut
  deriving DecidableEq, Repr

inductive WaitUntilTimeoutResult (V : Type) where
  | changed (value : V)
  | timedOut
  deriving DecidableEq, Repr

structure Deadline where
  started : ℕ
  timeout : ℕ
  deriving DecidableEq, Repr

namespace Deadline

def new (timeout : ℕ) : WaitProg V Deadline := do
  let started ← instantNow
  return { started, timeout }

/-- `started.elapsed()` at a clock reading; `Instant` subtraction saturates. -/
def elapsed (deadline : Deadline) (now : ℕ) : ℕ := now - deadline.started

def remaining (deadline : Deadline) : WaitProg V (Option ℕ) := do
  let now ← instantNow
  if deadline.elapsed now ≥ deadline.timeout then
    return none
  else
    return some (deadline.timeout - deadline.elapsed now)

end Deadline

/-- `deadline.is_some_and(|value| value.remaining().is_none())`. -/
def deadlineExpired : Option Deadline → WaitProg V Bool
  | none => return false
  | some deadline => do
    let remaining ← deadline.remaining
    return remaining.isNone

def noCStateHint : ℕ := 0xf0
def c1StateHint : ℕ := 0
def mwaitxSafetyTimeout : ℕ := 1000000
def umwaitSafetyTimeout : ℕ := 1000000
def nanosPerSecond : ℕ := 1000000000

/-- `u128::saturating_mul`. -/
def saturatingMul128 (a b : ℕ) : ℕ := min (a * b) (2 ^ 128 - 1)

/-- `u64::saturating_add`. -/
def saturatingAdd64 (a b : ℕ) : ℕ := min (a + b) (2 ^ 64 - 1)

def clampNat (low high n : ℕ) : ℕ := max low (min high n)

def durationToCycles (duration timerHz : ℕ) : ℕ :=
  clampNat 1 (2 ^ 32 - 1) (saturatingMul128 duration timerHz / nanosPerSecond)

def durationToCyclesU64 (duration timerHz : ℕ) : ℕ :=
  clampNat 1 (2 ^ 64 - 1) (saturatingMul128 duration timerHz / nanosPerSecond)

structure AmdConfig where
  timerHz : ℕ
  safetyTimeoutCycles : ℕ
  deriving DecidableEq, Repr

def AmdConfig.new (timerHz : ℕ) : AmdConfig where
  timerHz := timerHz
  safetyTimeoutCycles := durationToCycles mwaitxSafetyTimeout timerHz

structure IntelConfig where
  timerHz : ℕ
  safetyTimeoutCycles : ℕ
  deriving DecidableEq, Repr

def IntelConfig.new (timerHz : ℕ) : IntelConfig where
  timerHz := timerHz
  safetyTimeoutCycles := durationToCyclesU64 umwaitSafetyTimeout timerHz

inductive HardwareConfig where
  | amd (config : AmdConfig)
  | intel (config : IntelConfig)
  deriving DecidableEq, Repr

def mwaitxTimeoutCycles (config : AmdConfig) (remaining : ℕ) : ℕ :=
  if remaining < mwaitxSafetyTimeout then durationToCycles remaining config.timerHz
  else config.safetyTimeoutCycles

def umwaitTimeoutCycles (config : IntelConfig) (remaining : ℕ) : ℕ :=
  if remaining < umwaitSafetyTimeout then durationToCyclesU64 remaining config.timerHz
  else config.safetyTimeoutCycles

def umwaitDeadline (timeoutCycles : ℕ) : WaitProg V ℕ := do
  let now ← readTscOrdered
  return saturatingAdd64 now (max timeoutCycles 1)

variable [DecidableEq V]

/-- The `for _ in 0..spin_iterations` loop of `spin_prefix`. -/
def spinIterationsLoop (atomic : WaitableAtomic) (expected : V) (deadline : Option Deadline) :
    ℕ → WaitProg V (Option (WaitTimeoutResult V))
  | 0 => return none
  | n + 1 => do
    spinLoop
    let observed ← atomic.loadAcquire
    if observed ≠ expected then
      return some (.changed observed)
    else if ← deadlineExpired deadline then
      return some .timedOut
    else
      spinIterationsLoop atomic expected deadline n

def spinPrefix (atomic : WaitableAtomic) (expected : V) (spinIterations : ℕ)
    (deadline : Option Deadline) : WaitProg V (Option (WaitTimeoutResult V)) := do
  let initiallyObserved ← atomic.loadAcquire
  if initiallyObserved ≠ expected then
    return some (.changed initiallyObserved)
  else if ← deadlineExpired deadline then
    return some .timedOut
  else
    spinIterationsLoop atomic expected deadline spinIterations

def classifyAfterWait (atomic : WaitableAtomic) (expected : V) (deadline : Option Deadline) :
    WaitProg V (WaitTimeoutResult V) := do
  let observed ← atomic.loadAcquire
  if observed ≠ expected then
    return .changed observed
  else if ← deadlineExpired deadline then
    return .timedOut
  else
    return .unclassified

def mwaitxUntimedProtocol (config : AmdConfig) (cStateHint : ℕ) (atomic : WaitableAtomic)
    (expected : V) (arm : ℕ → WaitProg V Unit) (wait : ℕ → ℕ → WaitProg V Unit) :
    WaitProg V (WaitTimeoutResult V) := do
  let observed ← atomic.loadAcquire
  if observed ≠ expected then
    return .changed observed
  else
    arm atomic.monitoredAddress
    let observed ← atomic.loadAcquire
    if observed ≠ expected then
      return .changed observed
    else
      wait config.safetyTimeoutCycles cStateHint
      classifyAfterWait atomic expected none

def mwaitxTimedProtocol (config : AmdConfig) (cStateHint : ℕ) (atomic : WaitableAtomic)
    (expected : V) (deadline : Deadline) (arm : ℕ → WaitProg V Unit)
    (wait : ℕ → ℕ → WaitProg V Unit) : WaitProg V (WaitTimeoutResult V) := do
  let observed ← atomic.loadAcquire
  if observed ≠ expected then
    return .changed observed
  else
    let remaining ← deadline.remaining
    if remaining.isNone then
      return .timedOut
    else
      arm atomic.monitoredAddress
      let observed ← atomic.loadAcquire
      if observed ≠ expected then
        return .changed observed
      else
        match ← deadline.remaining with
        | none => return .timedOut
        | some remaining =>
          wait (mwaitxTimeoutCycles config remaining) cStateHint
          classifyAfterWait atomic expected (some deadline)

def umwaitUntimedProtocol (config : IntelConfig) (atomic : WaitableAtomic) (expected : V)
    (arm : ℕ → WaitProg V Unit) (absoluteDeadline : ℕ → WaitProg V ℕ)
    (wait : ℕ → WaitProg V Unit) : WaitProg V (WaitTimeoutResult V) := do
  let observed ← atomic.loadAcquire
  if observed ≠ expected then
    return .changed observed
  else
    arm atomic.monitoredAddress
    let observed ← atomic.loadAcquire
    if observed ≠ expected then
      return .changed observed
    else
      wait (← absoluteDeadline config.safetyTimeoutCycles)
      classifyAfterWait atomic expected none

def umwaitTimedProtocol (config : IntelConfig) (atomic : WaitableAtomic) (expected : V)
    (deadline : Deadline) (arm : ℕ → WaitProg V Unit) (absoluteDeadline : ℕ → WaitProg V ℕ)
    (wait : ℕ → WaitProg V Unit) : WaitProg V (WaitTimeoutResult V) := do
  let observed ← atomic.loadAcquire
  if observed ≠ expected then
    return .changed observed
  else
    let remaining ← deadline.remaining
    if remaining.isNone then
      return .timedOut
    else
      arm atomic.monitoredAddress
      let observed ← atomic.loadAcquire
      if observed ≠ expected then
        return .changed observed
      else
        match ← deadline.remaining with
        | none => return .timedOut
        | some remaining =>
          let cycles := umwaitTimeoutCycles config remaining
          wait (← absoluteDeadline cycles)
          classifyAfterWait atomic expected (some deadline)

def mwaitxRawHardware (config : AmdConfig) (cStateHint : ℕ) (atomic : WaitableAtomic)
    (expected : V) : WaitProg V (WaitTimeoutResult V) :=
  mwaitxUntimedProtocol config cStateHint atomic expected monitorx mwaitx

def mwaitxRawTimeoutHardware (config : AmdConfig) (cStateHint : ℕ) (atomic : WaitableAtomic)
    (expected : V) (deadline : Deadline) : WaitProg V (WaitTimeoutResult V) :=
  mwaitxTimedProtocol config cStateHint atomic expected deadline monitorx mwaitx

def umwaitRawHardware (config : IntelConfig) (atomic : WaitableAtomic) (expected : V) :
    WaitProg V (WaitTimeoutResult V) :=
  umwaitUntimedProtocol config atomic expected umonitor umwaitDeadline umwaitC01

def umwaitRawTimeoutHardware (config : IntelConfig) (atomic : WaitableAtomic) (expected : V)
    (deadline : Deadline) : WaitProg V (WaitTimeoutResult V) :=
  umwaitTimedProtocol config atomic expected deadline umonitor umwaitDeadline umwaitC01

def hardwareWait (config : HardwareConfig) (atomic : WaitableAtomic) (expected : V)
    (deadline : Option Deadline) : WaitProg V (WaitTimeoutResult V) :=
  match config, deadline with
  | .amd config, some deadline =>
    mwaitxRawTimeoutHardware config noCStateHint atomic expected deadline
  | .amd config, none => mwaitxRawHardware config noCStateHint atomic expected
  | .intel config, some deadline => umwaitRawTimeoutHardware config atomic expected deadline
  | .intel config, none => umwaitRawHardware config atomic expected

def hardwareWaitUntimed (config : HardwareConfig) (atomic : WaitableAtomic) (expected : V) :
    WaitProg V (WaitTimeoutResult V) :=
  hardwareWait config atomic expected none

def preflightWaitOnce (config : HardwareConfig) (target : WaitableAtomic) :
    WaitProg ℕ ℕ := do
  let observed ← target.load .acquire
  if observed ≠ 0 then
    return observed
  else
    match config with
    | .amd config =>
      monitorx target.address
      let observed ← target.load .acquire
      if observed ≠ 0 then
        return observed
      else
        storeHandoff
        let observed ← target.load .acquire
        if observed ≠ 0 then
          return observed
        else
          mwaitx config.safetyTimeoutCycles noCStateHint
          target.load .acquire
    | .intel config =>
      umonitor target.address
      let observed ← target.load .acquire
      if observed ≠ 0 then
        return observed
      else
        storeHandoff
        let observed ← target.load .acquire
        if observed ≠ 0 then
          return observed
        else
          umwaitC01 (← umwaitDeadline config.safetyTimeoutCycles)
          target.load .acquire

/-- The sealed set of implementors of the `WaitStrategy` trait. -/
inductive WaitStrategy where
  | busySpin
  | spinThenYield (spinIterations : ℕ)
  | hardwareWait (config : HardwareConfig)
  | spinThenHardwareWait (spinIterations : ℕ) (config : HardwareConfig)
  | amdMwaitxC1 (config : AmdConfig)
  deriving DecidableEq, Repr

def busySpinWaitRaw (atomic : WaitableAtomic) (expected : V) (deadline : Option Deadline) :
    WaitProg V (WaitTimeoutResult V) :=
  .loop (do
    let observed ← atomic.loadAcquire
    if observed ≠ expected then
      return some (.changed observed)
    else if ← deadlineExpired deadline then
      return some .timedOut
    else
      spinLoop
      return none) .ret

def spinThenYieldWaitRaw (spinIterations : ℕ) (atomic : WaitableAtomic) (expected : V)
    (deadline : Option Deadline) : WaitProg V (WaitTimeoutResult V) := do
  match ← spinPrefix atomic expected spinIterations deadline with
  | some result => return result
  | none =>
    yieldNow
    classifyAfterWait atomic expected deadline

def spinThenHardwareWaitRaw (spinIterations : ℕ) (config : HardwareConfig)
    (atomic : WaitableAtomic) (expected : V) (deadline : Option Deadline) :
    WaitProg V (WaitTimeoutResult V) := do
  match ← spinPrefix atomic expected spinIterations deadline with
  | some result => return result
  | none => hardwareWait config atomic expected deadline

def spinThenHardwareWaitRawUntimed (spinIterations : ℕ) (config : HardwareConfig)
    (atomic : WaitableAtomic) (expected : V) : WaitProg V (WaitTimeoutResult V) := do
  match ← spinPrefix atomic expected spinIterations none with
  | some result => return result
  | none => hardwareWaitUntimed config atomic expected

namespace WaitStrategy

def waitRaw : WaitStrategy → WaitableAtomic → V → Option Deadline →
    WaitProg V (WaitTimeoutResult V)
  | busySpin, atomic, expected, deadline => busySpinWaitRaw atomic expected deadline
  | spinThenYield n, atomic, expected, deadline => spinThenYieldWaitRaw n atomic expected deadline
  | hardwareWait config, atomic, expected, deadline =>
    Snoozer.hardwareWait config atomic expected deadline
  | spinThenHardwareWait n config, atomic, expected, deadline =>
    spinThenHardwareWaitRaw n config atomic expected deadline
  | amdMwaitxC1 config, atomic, expected, some deadline =>
    mwaitxRawTimeoutHardware config c1StateHint atomic expected deadline
  | amdMwaitxC1 config, atomic, expected, none =>
    mwaitxRawHardware config c1StateHint atomic expected

/-- The trait's default is `wait_raw` without a deadline; the hardware strategies override it. -/
def waitRawUntimed : WaitStrategy → WaitableAtomic → V → WaitProg V (WaitTimeoutResult V)
  | hardwareWait config, atomic, expected => hardwareWaitUntimed config atomic expected
  | spinThenHardwareWait n config, atomic, expected =>
    spinThenHardwareWaitRawUntimed n config atomic expected
  | amdMwaitxC1 config, atomic, expected => mwaitxRawHardware config c1StateHint atomic expected
  | strategy, atomic, expected => strategy.waitRaw atomic expected none

def waitIfEqual (strategy : WaitStrategy) (atomic : WaitableAtomic) (expected : V) :
    WaitProg V (WaitResult V) := do
  match ← strategy.waitRawUntimed atomic expected with
  | .changed value => return .changed value
  | .unclassified | .timedOut => return .unclassified

def waitUntilDifferent (strategy : WaitStrategy) (atomic : WaitableAtomic) (expected : V) :
    WaitProg V V :=
  .loop (do
    match ← strategy.waitRawUntimed atomic expected with
    | .changed value => return some value
    | _ => return none) .ret

def waitIfEqualTimeout (strategy : WaitStrategy) (atomic : WaitableAtomic) (expected : V)
    (timeout : ℕ) : WaitProg V (WaitTimeoutResult V) := do
  let deadline ← Deadline.new timeout
  strategy.waitRaw atomic expected (some deadline)

def waitUntilDifferentTimeout (strategy : WaitStrategy) (atomic : WaitableAtomic) (expected : V)
    (timeout : ℕ) : WaitProg V (WaitUntilTimeoutResult V) := do
  let deadline ← Deadline.new timeout
  .loop (do
    match ← strategy.waitRaw atomic expected (some deadline) with
    | .changed value => return some (.changed value)
    | .timedOut => return some .timedOut
    | .unclassified => return none) .ret

end WaitStrategy

end Snoozer
