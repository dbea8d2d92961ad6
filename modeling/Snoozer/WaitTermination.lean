import Snoozer.WaitStrategy

/-! Every raw wait but that of `BusySpin` is free of unbounded loops, so it
returns whatever its calls are answered. -/
namespace Snoozer
open Interactive

variable {V : Type}

theorem remaining_loopFree (d : Deadline) : (d.remaining : WaitProg V (Option ℕ)).LoopFree := by
  simp only [Deadline.remaining, Prog.monad_bind_eq, Prog.pure_eq_ret, instantNow_bind]
  exact fun now => .ite trivial trivial

theorem deadlineExpired_loopFree (deadline : Option Deadline) :
    (deadlineExpired deadline : WaitProg V Bool).LoopFree := by
  cases deadline with
  | none => trivial
  | some d => exact (remaining_loopFree d).bind fun _ => trivial

section LoopFree

variable [DecidableEq V] (atomic : WaitableAtomic) (expected : V) (deadline : Option Deadline)

theorem spinIterationsLoop_loopFree (n : ℕ) :
    (spinIterationsLoop atomic expected deadline n).LoopFree := by
  induction n with
  | zero => trivial
  | succ n ih =>
    simp only [spinIterationsLoop, Prog.monad_bind_eq, Prog.pure_eq_ret, spinLoop_bind,
      loadAcquire_bind]
    exact fun _ v => .ite trivial ((deadlineExpired_loopFree deadline).bind fun _ => .ite trivial ih)

theorem spinPrefix_loopFree (n : ℕ) : (spinPrefix atomic expected n deadline).LoopFree := by
  simp only [spinPrefix, Prog.monad_bind_eq, Prog.pure_eq_ret, loadAcquire_bind]
  exact fun v => .ite trivial ((deadlineExpired_loopFree deadline).bind fun _ =>
    .ite trivial (spinIterationsLoop_loopFree atomic expected deadline n))

theorem classifyAfterWait_loopFree : (classifyAfterWait atomic expected deadline).LoopFree := by
  simp only [classifyAfterWait, Prog.monad_bind_eq, Prog.pure_eq_ret, loadAcquire_bind]
  exact fun v => .ite trivial ((deadlineExpired_loopFree deadline).bind fun _ =>
    .ite trivial trivial)

theorem mwaitxUntimed_loopFree (config : AmdConfig) (hint : ℕ) :
    (mwaitxRawHardware config hint atomic expected).LoopFree := by
  simp only [mwaitxRawHardware, mwaitxUntimedProtocol, Prog.monad_bind_eq, Prog.pure_eq_ret,
    loadAcquire_bind, monitorx_bind, mwaitx_bind]
  exact fun v => .ite trivial fun _ v => .ite trivial fun _ =>
    classifyAfterWait_loopFree atomic expected none

theorem umwaitUntimed_loopFree (config : IntelConfig) :
    (umwaitRawHardware config atomic expected).LoopFree := by
  simp only [umwaitRawHardware, umwaitUntimedProtocol, umwaitDeadline, Prog.monad_bind_eq,
    Prog.pure_eq_ret, loadAcquire_bind, umonitor_bind, readTscOrdered_bind, Prog.call_bind,
    Prog.ret_bind, umwaitC01_bind]
  exact fun v => .ite trivial fun _ v => .ite trivial fun _ _ =>
    classifyAfterWait_loopFree atomic expected none

theorem mwaitxTimed_loopFree (config : AmdConfig) (hint : ℕ) (d : Deadline) :
    (mwaitxRawTimeoutHardware config hint atomic expected d).LoopFree := by
  simp only [mwaitxRawTimeoutHardware, mwaitxTimedProtocol, Prog.monad_bind_eq, Prog.pure_eq_ret,
    loadAcquire_bind, monitorx_bind, mwaitx_bind]
  refine fun v => .ite trivial ((remaining_loopFree d).bind fun _ => .ite trivial fun _ v =>
    .ite trivial ((remaining_loopFree d).bind fun o => ?_))
  cases o with
  | none => trivial
  | some r => exact fun _ => classifyAfterWait_loopFree atomic expected (some d)

theorem umwaitTimed_loopFree (config : IntelConfig) (d : Deadline) :
    (umwaitRawTimeoutHardware config atomic expected d).LoopFree := by
  simp only [umwaitRawTimeoutHardware, umwaitTimedProtocol, umwaitDeadline, Prog.monad_bind_eq,
    Prog.pure_eq_ret, loadAcquire_bind, umonitor_bind, readTscOrdered_bind, Prog.call_bind,
    Prog.ret_bind, umwaitC01_bind]
  refine fun v => .ite trivial ((remaining_loopFree d).bind fun _ => .ite trivial fun _ v =>
    .ite trivial ((remaining_loopFree d).bind fun o => ?_))
  cases o with
  | none => trivial
  | some r => exact fun _ _ => classifyAfterWait_loopFree atomic expected (some d)

theorem hardwareWait_loopFree (config : HardwareConfig) :
    (hardwareWait config atomic expected deadline).LoopFree := by
  cases config with
  | amd config =>
    cases deadline with
    | none => exact mwaitxUntimed_loopFree atomic expected config noCStateHint
    | some d => exact mwaitxTimed_loopFree atomic expected config noCStateHint d
  | intel config =>
    cases deadline with
    | none => exact umwaitUntimed_loopFree atomic expected config
    | some d => exact umwaitTimed_loopFree atomic expected config d

/-- Only `BusySpin` can stay in one raw wait for ever. -/
theorem waitRaw_loopFree (strategy : WaitStrategy) (hs : strategy ≠ .busySpin) :
    (strategy.waitRaw atomic expected deadline).LoopFree := by
  cases strategy with
  | busySpin => exact absurd rfl hs
  | spinThenYield n =>
    refine (spinPrefix_loopFree atomic expected deadline n).bind fun o => ?_
    cases o with
    | none => exact fun _ => classifyAfterWait_loopFree atomic expected deadline
    | some r => trivial
  | hardwareWait config => exact hardwareWait_loopFree atomic expected deadline config
  | spinThenHardwareWait n config =>
    refine (spinPrefix_loopFree atomic expected deadline n).bind fun o => ?_
    cases o with
    | none => exact hardwareWait_loopFree atomic expected deadline config
    | some r => trivial
  | amdMwaitxC1 config =>
    cases deadline with
    | none => exact mwaitxUntimed_loopFree atomic expected config c1StateHint
    | some d => exact mwaitxTimed_loopFree atomic expected config c1StateHint d

end LoopFree

end Snoozer
