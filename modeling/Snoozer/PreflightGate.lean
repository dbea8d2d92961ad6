import Snoozer.CapabilityGates
import Snoozer.OnceCell

/-! The process-wide preflight behind its `OnceLock`: `HardwareWait::preflight` and the
constructors of the hardware strategies, called from any number of threads in any order. -/
namespace Snoozer
open Interactive

abbrev CachedPreflight := Except HardwareWaitError PreparedHardwareWait

abbrev GateProg := Prog OnceOp (OnceAns CachedPreflight)

/-- `catch_unwind(initialize).unwrap_or(Err(PreflightPanicked))`; `none` is a panic. -/
def caught : Option CachedPreflight → CachedPreflight
  | some result => result
  | none => .error .preflightPanicked

/-- `get_or_init` on `HARDWARE_PREFLIGHT`. -/
def initializeOnce : GateProg CachedPreflight := do
  Prog.perform OnceOp.enter
  Prog.perform OnceOp.await

namespace HardwareWait

def preflight : GateProg (Except HardwareWaitError PreflightReport) := do
  let prepared ← initializeOnce
  return prepared.map PreparedHardwareWait.report

/-- The configuration of the new `HardwareWait`. -/
def new : GateProg (Except HardwareWaitError HardwareConfig) := do
  match ← Prog.perform OnceOp.get with
  | none => return .error .preflightRequired
  | some (.ok prepared) => return .ok prepared.config
  | some (.error error) => return .error error

end HardwareWait

/-- The calls of the public interface. -/
inductive GateCall where
  | preflight
  | hardwareWait
  | spinThenHardwareWait (spinIterations : ℕ)
  | amdMwaitxC1
  deriving DecidableEq, Repr

inductive GateValue where
  | report (report : PreflightReport)
  | strategy (strategy : WaitStrategy)
  deriving DecidableEq, Repr

def SpinThenHardwareWait.new (spinIterations : ℕ) :
    GateProg (Except HardwareWaitError WaitStrategy) := do
  return (← HardwareWait.new).map fun hardware => .spinThenHardwareWait spinIterations hardware

def AmdMwaitxC1.new : GateProg (Except HardwareWaitError WaitStrategy) := do
  match ← HardwareWait.new with
  | .ok (.amd config) => return .ok (.amdMwaitxC1 config)
  | .ok (.intel _) => return .error (unsupported .unsupportedCpuVendor)
  | .error error => return .error error

def GateCall.program : GateCall → GateProg (Except HardwareWaitError GateValue)
  | .preflight => do return (← HardwareWait.preflight).map .report
  | .hardwareWait => do return (← HardwareWait.new).map fun config => .strategy (.hardwareWait config)
  | .spinThenHardwareWait n => do return (← SpinThenHardwareWait.new n).map .strategy
  | .amdMwaitxC1 => do return (← AmdMwaitxC1.new).map .strategy

/-- The initializer of the cell on a processor. -/
def preflightInitializer (cpu : Cpuid) : Initializer PreflightOp PreflightAns
    (List (Event PreflightOp PreflightAns)) CachedPreflight CachedPreflight where
  machine := cpu.machine
  program := runHardwarePreflight.run
  initial := []
  settle := caught

/-- The answer of a call, from what it found in the cell. -/
def GateCall.answer : GateCall → Option CachedPreflight → Except HardwareWaitError GateValue
  | .preflight, none => .error .preflightRequired
  | .preflight, some cached => cached.map fun prepared => .report prepared.report
  | _, none => .error .preflightRequired
  | .hardwareWait, some cached =>
    cached.map fun prepared => .strategy (.hardwareWait prepared.config)
  | .spinThenHardwareWait n, some cached =>
    cached.map fun prepared => .strategy (.spinThenHardwareWait n prepared.config)
  | .amdMwaitxC1, some (.ok prepared) => match prepared.config with
    | .amd config => .ok (.strategy (.amdMwaitxC1 config))
    | .intel _ => .error (unsupported .unsupportedCpuVendor)
  | .amdMwaitxC1, some (.error error) => .error error

/-- How a call has ended: a preflight with the value it waited for, a constructor with what
it saw. -/
def GateCall.Ended (call : GateCall) (r : Except HardwareWaitError GateValue)
    (φ : OncePhase CachedPreflight) : Prop :=
  if call = .preflight then ∃ cached, φ = .given cached ∧ r = call.answer (some cached)
  else ∃ seen, φ = .seen seen ∧ r = call.answer seen

/-- Every entry point obeys the protocol of the cell. -/
theorem GateCall.follows (call : GateCall) :
    (onceProtocol CachedPreflight).Follows call.program .idle call.Ended := by
  cases call with
  | preflight =>
    apply Protocol.follows_call
    intro _
    refine ⟨.entered, rfl, Protocol.follows_call fun cached => ⟨.given cached, rfl, ?_⟩⟩
    apply Protocol.follows_ret
    refine (if_pos rfl).mpr ⟨cached, rfl, ?_⟩
    cases cached with
    | ok prepared => rfl
    | error e => rfl
  | hardwareWait =>
    apply Protocol.follows_call
    intro seen
    refine ⟨.seen seen, rfl, ?_⟩
    rcases seen with _ | e | prepared
    · exact Protocol.follows_ret ⟨_, rfl, rfl⟩
    · exact Protocol.follows_ret ⟨_, rfl, rfl⟩
    · exact Protocol.follows_ret ⟨_, rfl, rfl⟩
  | spinThenHardwareWait n =>
    apply Protocol.follows_call
    intro seen
    refine ⟨.seen seen, rfl, ?_⟩
    rcases seen with _ | e | prepared
    · exact Protocol.follows_ret ⟨_, rfl, rfl⟩
    · exact Protocol.follows_ret ⟨_, rfl, rfl⟩
    · exact Protocol.follows_ret ⟨_, rfl, rfl⟩
  | amdMwaitxC1 =>
    apply Protocol.follows_call
    intro seen
    refine ⟨.seen seen, rfl, ?_⟩
    rcases seen with _ | e | ⟨config | config, report⟩
    · exact Protocol.follows_ret ⟨_, rfl, rfl⟩
    · exact Protocol.follows_ret ⟨_, rfl, rfl⟩
    · exact Protocol.follows_ret ⟨_, rfl, rfl⟩
    · exact Protocol.follows_ret ⟨_, rfl, rfl⟩

theorem GateCall.program_looks {call : GateCall} (hcall : call ≠ .preflight) :
    ∃ f, call.program = .call .get f := by
  cases call with
  | preflight => exact absurd rfl hcall
  | hardwareWait => exact ⟨_, rfl⟩
  | spinThenHardwareWait n => exact ⟨_, rfl⟩
  | amdMwaitxC1 => exact ⟨_, rfl⟩

theorem GateCall.Ended.looked {call : GateCall} {r : Except HardwareWaitError GateValue}
    {φ : OncePhase CachedPreflight} (h : call.Ended r φ) (hcall : call ≠ .preflight) :
    ∃ seen, φ = .seen seen ∧ r = call.answer seen := by
  unfold GateCall.Ended at h
  rwa [if_neg hcall] at h

theorem GateCall.answer_none (call : GateCall) :
    call.answer none = .error .preflightRequired := by
  cases call with
  | _ => rfl

def configFor : HardwareBackend → ℕ → HardwareConfig
  | .amdMwaitx, timerHz => .amd (AmdConfig.new timerHz)
  | .intelUmwait, timerHz => .intel (IntelConfig.new timerHz)

/-- The guards that a cached configuration has passed, one after the other, in the run of the
initializer that ended with the trace `t`. -/
structure Proven (cpu : Cpuid) (prepared : PreparedHardwareWait)
    (t : List (Event PreflightOp PreflightAns)) : Prop where
  backend : prepared.report.backend = prepared.config.backend
  guards : ∃ detected timerHz t₁ t₂ t₃,
    Reach cpu.machine (detectCapabilities, []) (.ret detected, t₁) ∧
    selectBackend detected = .ok prepared.config.backend ∧
    requireSharedTimerCapabilities detected = .ok () ∧
    Reach cpu.machine (Intel.userspaceTscIsEnabled, t₁) (.ret true, t₂) ∧
    Reach cpu.machine (vendorCalibration prepared.config.backend, t₂) (.ret (some timerHz), t₃) ∧
    prepared.config = configFor prepared.config.backend timerHz ∧
    Reach cpu.machine ((functionalPreflight prepared.config).run, t₃)
      (.ret (.ok prepared.report), t)

variable {cpu : Cpuid} {t t' : List (Event PreflightOp PreflightAns)}

theorem unfailing_bind_ok {α β : Type} {p : PreflightProg α} {f : α → Preflight β} {b : β}
    (h : Reach cpu.machine ((unfailing p >>= f).run, t) (.ret (.ok b), t')) :
    ∃ a t₁, Reach cpu.machine (p, t) (.ret a, t₁) ∧
      Reach cpu.machine ((f a).run, t₁) (.ret (.ok b), t') := by
  rw [unfailing, lift_bind_run] at h
  exact reach_bind_ret h

theorem guarded_bind_ok {α β : Type} {r : Except HardwareWaitError α} {f : α → Preflight β} {b : β}
    (h : Reach cpu.machine ((guarded r >>= f).run, t) (.ret (.ok b), t')) :
    ∃ a, r = .ok a ∧ Reach cpu.machine ((f a).run, t) (.ret (.ok b), t') := by
  obtain ⟨a, t₁, hr, hf⟩ := cpu.machine_closed.reach_andThen h
  obtain ⟨ha, rfl⟩ := cpu.machine_closed.reach_ret hr
  exact ⟨a, ha.symm, hf⟩

theorem throw_ne_ok {α : Type} {e : HardwareWaitError} {b : α} :
    ¬ Reach cpu.machine ((throw e : Preflight α).run, t) (.ret (.ok b), t') :=
  fun h => nomatch (cpu.machine_closed.reach_ret h).1

/-- A configuration is prepared of the selected backend and its calibrated timer. -/
theorem prepareHardwareConfig_ok {detected : Capabilities} {config : HardwareConfig}
    (h : Reach cpu.machine ((prepareHardwareConfig detected Intel.userspaceTscIsEnabled
      Amd.calibrateTimerHz Intel.calibrateTimerHz).run, t) (.ret (.ok config), t')) :
    selectBackend detected = .ok config.backend ∧
    requireSharedTimerCapabilities detected = .ok () ∧
    ∃ timerHz t₁, Reach cpu.machine (Intel.userspaceTscIsEnabled, t) (.ret true, t₁) ∧
      Reach cpu.machine (vendorCalibration config.backend, t₁) (.ret (some timerHz), t') ∧
      config = configFor config.backend timerHz := by
  obtain ⟨backend, hselect, h⟩ := guarded_bind_ok h
  obtain ⟨⟨⟩, hrequire, h⟩ := guarded_bind_ok h
  obtain ⟨enabled, t₁, htsc, h⟩ := unfailing_bind_ok h
  cases enabled with
  | false => exact absurd h throw_ne_ok
  | true =>
    have hbackend : selectBackend detected = .ok backend := by
      cases hs : selectBackend detected with
      | ok b =>
        rw [hs] at hselect
        cases hselect
        rfl
      | error e =>
        rw [hs] at hselect
        exact nomatch hselect
    cases backend with
    | amdMwaitx =>
      obtain ⟨hz, t₂, hcalibrate, h⟩ := unfailing_bind_ok h
      cases hz with
      | none => exact absurd h throw_ne_ok
      | some timerHz =>
        obtain ⟨hconfig, rfl⟩ := cpu.machine_closed.reach_ret h
        cases hconfig
        exact ⟨hbackend, hrequire, timerHz, t₁, htsc, hcalibrate, rfl⟩
    | intelUmwait =>
      obtain ⟨hz, t₂, hcalibrate, h⟩ := unfailing_bind_ok h
      cases hz with
      | none => exact absurd h throw_ne_ok
      | some timerHz =>
        obtain ⟨hconfig, rfl⟩ := cpu.machine_closed.reach_ret h
        cases hconfig
        exact ⟨hbackend, hrequire, timerHz, t₁, htsc, hcalibrate, rfl⟩

/-- The report is made for the configuration that was probed. -/
theorem functionalPreflight_backend {config : HardwareConfig} {report : PreflightReport}
    (h : Reach cpu.machine ((functionalPreflight config).run, t) (.ret (.ok report), t')) :
    report.backend = config.backend := by
  have hgives : Fallible.Gives (fun report => report.backend = config.backend)
      (functionalPreflight config) := by
    apply Fallible.gives_bind
    intro baselines
    apply Fallible.gives_ite
    · exact fun _ => Fallible.gives_throw _
    · intro _
      apply Fallible.gives_bind
      intro counts report hreport
      unfold concludePreflight at hreport
      split at hreport
      · exact nomatch hreport
      · split at hreport
        · exact nomatch hreport
        · cases hreport
          rfl
  exact hgives.reach h report rfl

/-- A preflight that succeeds has proved its backend. -/
theorem runHardwarePreflight_ok {prepared : PreparedHardwareWait}
    (h : Reach cpu.machine (runHardwarePreflight.run, []) (.ret (.ok prepared), t)) :
    Proven cpu prepared t := by
  obtain ⟨config, t₃, hprepare, h⟩ := cpu.machine_closed.reach_andThen h
  obtain ⟨report, t₄, hprobe, h⟩ := cpu.machine_closed.reach_andThen h
  obtain ⟨hprepared, rfl⟩ := cpu.machine_closed.reach_ret h
  cases hprepared
  obtain ⟨detected, t₁, hdetect, hconfig⟩ := unfailing_bind_ok hprepare
  obtain ⟨hselect, hrequire, timerHz, t₂, htsc, hcalibrate, heq⟩ := prepareHardwareConfig_ok hconfig
  exact {
    backend := functionalPreflight_backend hprobe
    guards := ⟨detected, timerHz, t₁, t₂, t₃, hdetect, hselect, hrequire, htsc, hcalibrate, heq,
      hprobe⟩ }

/-- Not the error of a constructor that came too early. -/
def NotRequired (e : HardwareWaitError) : Prop := e ≠ .preflightRequired

theorem throws_unsupported {α : Type} (reason : UnsupportedReason) :
    Fallible.Throws NotRequired (throw (unsupported reason) : Preflight α) :=
  Fallible.throws_throw fun h => nomatch h

theorem throws_guarded {α : Type} {r : Except HardwareWaitError α}
    (h : ∀ e, r = .error e → NotRequired e) : Fallible.Throws NotRequired (guarded r) := h

theorem throws_calibrated (calibrate : PreflightProg (Option ℕ)) (make : ℕ → HardwareConfig) :
    Fallible.Throws NotRequired (do
      match ← unfailing calibrate with
      | some timerHz => return make timerHz
      | none => throw (unsupported .unstableTimerCalibration)) := by
  apply Fallible.throws_bind (Fallible.throws_lift _)
  intro hz
  cases hz with
  | none => exact throws_unsupported _
  | some timerHz => exact Fallible.throws_pure _

/-- The preparation never answers that a preflight is required. -/
theorem throws_prepareHardwareConfig (detected : Capabilities) : Fallible.Throws NotRequired
    (prepareHardwareConfig detected Intel.userspaceTscIsEnabled Amd.calibrateTimerHz
      Intel.calibrateTimerHz) := by
  apply Fallible.throws_bind
  · apply throws_guarded
    intro e he
    cases hs : selectBackend detected with
    | ok b =>
      rw [hs] at he
      cases he
    | error reason =>
      rw [hs] at he
      cases he
      intro h
      cases h
  · intro backend
    apply Fallible.throws_bind
    · apply throws_guarded
      intro e he
      unfold requireSharedTimerCapabilities at he
      split at he
      · cases he
        intro h
        cases h
      · split at he
        · cases he
          intro h
          cases h
        · cases he
    · intro _
      apply Fallible.throws_bind (Fallible.throws_lift _)
      intro enabled
      apply Fallible.throws_ite (throws_unsupported _)
      cases backend with
      | amdMwaitx => exact throws_calibrated _ _
      | intelUmwait => exact throws_calibrated _ _

/-- Nor does the functional preflight. -/
theorem throws_functionalPreflight (config : HardwareConfig) :
    Fallible.Throws NotRequired (functionalPreflight config) := by
  apply Fallible.throws_bind (Fallible.throws_lift _)
  intro baselines
  apply Fallible.throws_ite
  · exact Fallible.throws_throw fun h => nomatch h
  · apply Fallible.throws_bind (Fallible.throws_lift _)
    intro counts
    apply throws_guarded
    intro e he
    unfold concludePreflight at he
    split at he
    · cases he
      exact fun h => nomatch h
    · split at he
      · cases he
        exact fun h => nomatch h
      · exact nomatch he

/-- `PreflightRequired` is no result of a preflight. -/
theorem throws_runHardwarePreflight : Fallible.Throws NotRequired runHardwarePreflight := by
  apply Fallible.throws_bind
  · apply Fallible.throws_bind (Fallible.throws_lift _)
    exact throws_prepareHardwareConfig
  · intro config
    apply Fallible.throws_bind (throws_functionalPreflight config)
    exact fun report => Fallible.throws_pure _

/-- What a constructor returns once the result is cached: the cached error, or a strategy with
the one configuration, which the AMD strategy refuses if it is for Intel. -/
def GateCall.Serves (call : GateCall) (r : Except HardwareWaitError GateValue) :
    CachedPreflight → Prop
  | .error e => r = .error e
  | .ok prepared => match call, prepared.config with
    | .preflight, _ => False
    | .hardwareWait, config => r = .ok (.strategy (.hardwareWait config))
    | .spinThenHardwareWait n, config => r = .ok (.strategy (.spinThenHardwareWait n config))
    | .amdMwaitxC1, .amd config => r = .ok (.strategy (.amdMwaitxC1 config))
    | .amdMwaitxC1, .intel _ => r = .error (unsupported .unsupportedCpuVendor)

/-- A call that is no preflight answers from the cell. -/
theorem GateCall.serves_answer {call : GateCall} (hcall : call ≠ .preflight)
    (cached : CachedPreflight) : call.Serves (call.answer (some cached)) cached := by
  rcases cached with e | ⟨config | config, report⟩
  · cases call with
    | preflight => exact absurd rfl hcall
    | _ => rfl
  · cases call with
    | preflight => exact absurd rfl hcall
    | _ => rfl
  · cases call with
    | preflight => exact absurd rfl hcall
    | _ => rfl

section Gate

variable {κ : Type} [DecidableEq κ] {call : κ → GateCall}

/-- The pool of all calls that are ever made. -/
def calls (call : κ → GateCall) : Pool κ OnceOp (OnceAns CachedPreflight)
    fun _ => Except HardwareWaitError GateValue :=
  fun k => (call k).program

theorem value_full {cell : OnceCell (List (Event PreflightOp PreflightAns)) CachedPreflight}
    {cached : CachedPreflight} (h : (preflightInitializer cpu).value cell = some cached) :
    ∃ outcome t, cell = .full outcome t ∧ cached = caught outcome := by
  cases cell with
  | empty => exact nomatch h
  | running => exact nomatch h
  | full outcome t =>
    cases h
    exact ⟨outcome, t, rfl, rfl⟩

/-- A cached success is the value that a run of the preflight returned. -/
theorem cached_proven {outcome : Option CachedPreflight} {prepared : PreparedHardwareWait}
    (hout : (preflightInitializer cpu).Outcome outcome t) (h : caught outcome = .ok prepared) :
    outcome = some (.ok prepared) ∧ Proven cpu prepared t := by
  cases outcome with
  | none => exact nomatch h
  | some result =>
    obtain rfl : result = .ok prepared := h
    obtain ⟨q, hr, hq⟩ := hout
    rw [hq _ rfl] at hr
    exact ⟨rfl, runHardwarePreflight_ok hr⟩

theorem cached_notRequired {outcome : Option CachedPreflight}
    (hout : (preflightInitializer cpu).Outcome outcome t) :
    caught outcome ≠ .error .preflightRequired := by
  intro h
  cases outcome with
  | none => exact nomatch h
  | some result =>
    obtain rfl : result = .error .preflightRequired := h
    obtain ⟨q, hr, hq⟩ := hout
    rw [hq _ rfl] at hr
    exact Prog.Gives.reach throws_runHardwarePreflight hr _ rfl rfl

/-- A cached outcome is never reported as a preflight that is required. -/
theorem serves_notRequired {k : GateCall} {cached : CachedPreflight}
    {r : Except HardwareWaitError GateValue} (h : k.Serves r cached)
    (hcached : cached ≠ .error .preflightRequired) : r ≠ .error .preflightRequired := by
  rintro rfl
  rcases cached with e | ⟨config | config, report⟩
  · obtain rfl : HardwareWaitError.preflightRequired = e := Except.error.inj h
    exact hcached rfl
  · cases k with
    | preflight => exact h
    | _ => exact nomatch h
  · cases k with
    | preflight => exact h
    | _ => exact nomatch h

/-- The preflight is run at most once, whoever calls it, and every call of it has the one
result; once there is a result, every constructor that looks is served from it for ever, and a
strategy is only ever made of a configuration that has passed every guard and the probe. -/
theorem preflight_once (cpu : Cpuid) (call : κ → GateCall)
    {c : Pool κ OnceOp (OnceAns CachedPreflight) fun _ => Except HardwareWaitError GateValue}
    {s : OnceState (List (Event PreflightOp PreflightAns)) CachedPreflight}
    (hr : PoolReach ((preflightInitializer cpu).parties κ) (calls call, emptyCell _ _) (c, s)) :
    s.starts ≤ 1 ∧
    (∀ k r, call k = .preflight → c k = .ret r → ∃ outcome t, s.cell = .full outcome t ∧
      r = (caught outcome).map (fun prepared => .report prepared.report) ∧
      (outcome = none → r = .error .preflightPanicked)) ∧
    (∀ k k' r r', call k = .preflight → call k' = .preflight → c k = .ret r → c k' = .ret r' →
      r = r') ∧
    (∀ k strategy, c k = .ret (.ok (.strategy strategy)) → ∃ prepared t,
      s.cell = .full (some (.ok prepared)) t ∧
      (call k).Serves (.ok (.strategy strategy)) (.ok prepared) ∧ Proven cpu prepared t) ∧
    ∀ outcome t, s.cell = .full outcome t →
      ∀ c' s', PoolReach ((preflightInitializer cpu).parties κ) (c, s) (c', s') → s' = s ∧
        ∀ k r, call k ≠ .preflight → c k = (call k).program → c' k = .ret r →
          r ≠ .error .preflightRequired ∧ (call k).Serves r (caught outcome) := by
  have hfollows : ∀ k, (onceProtocol CachedPreflight).Follows (calls call k) .idle
      (call k).Ended := fun k => (call k).follows
  obtain ⟨φ, ⟨hsound, hknows⟩, hφ⟩ := once_reach hfollows hr
  have hended : ∀ k r, c k = .ret r → (call k).Ended r (φ k) :=
    fun k r hret => (hfollows k _ _ (hφ k)).2 r hret
  have hpreflight : ∀ k r, call k = .preflight → c k = .ret r → ∃ outcome t,
      s.cell = .full outcome t ∧
      r = (caught outcome).map (fun prepared => .report prepared.report) ∧
      (outcome = none → r = .error .preflightPanicked) := by
    intro k r hk hret
    have h := hended k r hret
    rw [hk] at h
    obtain ⟨cached, hgiven, hanswer⟩ := h
    have hvalue := hknows k
    rw [hgiven] at hvalue
    obtain ⟨outcome, t, hcell, rfl⟩ := value_full hvalue
    refine ⟨outcome, t, hcell, hanswer, ?_⟩
    rintro rfl
    exact hanswer
  refine ⟨hsound.starts_le, hpreflight, ?_, ?_, ?_⟩
  · intro k k' r r' hk hk' hret hret'
    obtain ⟨outcome, t, hcell, hanswer, _⟩ := hpreflight k r hk hret
    obtain ⟨outcome', t', hcell', hanswer', _⟩ := hpreflight k' r' hk' hret'
    obtain ⟨rfl, rfl⟩ := OnceCell.full.inj (hcell.symm.trans hcell')
    rw [hanswer, hanswer']
  · intro k strategy hret
    have h := hended k _ hret
    have hk : call k ≠ .preflight := by
      intro hk
      obtain ⟨outcome, t, _, hanswer, _⟩ := hpreflight k _ hk hret
      cases hcaught : caught outcome with
      | error e =>
        rw [hcaught] at hanswer
        exact nomatch hanswer
      | ok prepared =>
        rw [hcaught] at hanswer
        exact nomatch hanswer
    obtain ⟨seen, hseen, hanswer⟩ := h.looked hk
    cases seen with
    | none =>
      rw [GateCall.answer_none] at hanswer
      exact nomatch hanswer
    | some cached =>
      have hvalue := hknows k
      rw [hseen] at hvalue
      obtain ⟨outcome, t, hcell, hcached⟩ := value_full hvalue
      have hserves := GateCall.serves_answer hk cached
      rw [← hanswer] at hserves
      cases cached with
      | error e => exact nomatch hserves
      | ok prepared =>
        obtain ⟨rfl, hproven⟩ := cached_proven (hsound.outcome hcell) hcached.symm
        exact ⟨prepared, t, hcell, hserves, hproven⟩
  · intro outcome t hcell c' s' hr'
    have hvalue : (preflightInitializer cpu).value s.cell = some (caught outcome) := by
      rw [hcell]
      rfl
    obtain ⟨hstays, hlater⟩ := once_later hfollows hr hvalue hr'
    refine ⟨hstays, fun k r hk hunread hret => ?_⟩
    obtain ⟨f, hf⟩ := GateCall.program_looks hk
    obtain ⟨seen, hseen, hanswer⟩ := (hlater k ⟨f, hunread.trans hf⟩ r hret).looked hk
    cases hseen
    have hserves := GateCall.serves_answer hk (caught outcome)
    rw [← hanswer] at hserves
    have hrequired := cached_notRequired (hsound.outcome hcell)
    exact ⟨serves_notRequired hserves hrequired, hserves⟩

end Gate

/-- The clock stands still while a trial waits, and the helper's store is seen by the last of the
four loads of a trial. -/
def luckyMachine : Handler PreflightOp PreflightAns (List (Event PreflightOp PreflightAns)) :=
  fun op t =>
    let readings := t.countP fun e => e.1 = .instantNow
    let x : PreflightAns op := match op with
      | .cpuid leaf subleaf => sampleCpu leaf subleaf
      | .prctlGetTsc => (0, 1)
      | .rdtscp => (0, BitVec.ofNat 32 (1000 * t.countP fun e => e.1 = .rdtscp), 0)
      | .instantNow => 1000000000 * min readings 18 + (readings - 18)
      | .spinLoop => ()
      | .wait (.load address ordering) =>
        if t.countP (fun e => e.1 = .wait (.load address ordering)) % 4 = 3 then address
        else (0 : ℕ)
      | .wait op => (default : WaitAns ℕ op)
      | .startTrial _ => ()
      | .receive => some 0
    (x, t ++ [⟨op, x⟩])

theorem luckyMachine_acts (op : PreflightOp) (t : List (Event PreflightOp PreflightAns)) :
    (Cpuid.machine sampleCpu).act op t (luckyMachine op t).1 (luckyMachine op t).2 := by
  refine ⟨rfl, ?_⟩
  cases op with
  | cpuid leaf subleaf => rfl
  | _ => trivial

def luckyPrepared : PreparedHardwareWait where
  config := .amd (AmdConfig.new 400)
  report := ⟨.amdMwaitx, 2, 2, 1000000000⟩

theorem luckyPreflight : ∃ t,
    Reach (Cpuid.machine sampleCpu) (runHardwarePreflight.run, []) (.ret (.ok luckyPrepared), t) := by
  have hrun : (runHardwarePreflight.run.run luckyMachine 200 []).map Prod.fst =
      some (.ok luckyPrepared) := by
    decide +kernel
  obtain ⟨⟨r, t⟩, hrun, rfl⟩ := Option.map_eq_some_iff.mp hrun
  exact ⟨t, reach_of_run luckyMachine_acts _ _ _ hrun⟩

/-- A constructor that comes too early, the preflight, and a constructor after it. -/
def luckyCall : Fin 3 → GateCall
  | 1 => .preflight
  | _ => .hardwareWait

def luckyPool : Pool (Fin 3) OnceOp (OnceAns CachedPreflight)
    fun _ => Except HardwareWaitError GateValue
  | 0 => .ret (.error .preflightRequired)
  | 1 => .ret (.ok (.report luckyPrepared.report))
  | 2 => .ret (.ok (.strategy (.hardwareWait luckyPrepared.config)))

/-- The preflight once it has entered. -/
def awaiting : GateProg (Except HardwareWaitError GateValue) :=
  .call .await fun cached : CachedPreflight =>
    .ret ((cached.map PreparedHardwareWait.report).map GateValue.report)

/-- Three callers on the sample's processor, of whom one runs the preflight. -/
theorem luckyRun : ∃ t, PoolReach ((preflightInitializer sampleCpu).parties (Fin 3))
    (calls luckyCall, emptyCell _ _) (luckyPool, ⟨.full (some (.ok luckyPrepared)) t, 1⟩) := by
  obtain ⟨t, hpreflight⟩ := luckyPreflight
  have hends : (preflightInitializer sampleCpu).Ends ⟨.running, 1⟩
      ⟨.full (some (.ok luckyPrepared)) t, 1⟩ := by
    refine ⟨rfl, some (.ok luckyPrepared), t, ⟨_, hpreflight, ?_⟩, rfl⟩
    rintro _ ⟨⟩
    rfl
  have hearly : PoolStep ((preflightInitializer sampleCpu).parties (Fin 3))
      (calls luckyCall, emptyCell _ _)
      (Function.update (calls luckyCall) 0 (luckyPool 0), emptyCell _ _) :=
    PoolStep.call (x := none) (show _ = Prog.call OnceOp.get _ from rfl) ⟨rfl, rfl⟩ rfl
  have henter : PoolStep ((preflightInitializer sampleCpu).parties (Fin 3))
      (Function.update (calls luckyCall) 0 (luckyPool 0), emptyCell _ _)
      (Function.update (Function.update (calls luckyCall) 0 (luckyPool 0)) 1 awaiting,
        ⟨.running, 1⟩) :=
    PoolStep.call (x := ()) (show _ = Prog.call OnceOp.enter _ from rfl) rfl rfl
  have hawait : PoolStep ((preflightInitializer sampleCpu).parties (Fin 3))
      (Function.update (Function.update (calls luckyCall) 0 (luckyPool 0)) 1 awaiting,
        ⟨.full (some (.ok luckyPrepared)) t, 1⟩)
      (Function.update luckyPool 2 GateCall.hardwareWait.program,
        ⟨.full (some (.ok luckyPrepared)) t, 1⟩) := by
    have hpool : Function.update luckyPool 2 GateCall.hardwareWait.program = Function.update
        (Function.update (Function.update (calls luckyCall) 0 (luckyPool 0)) 1 awaiting) 1
        (luckyPool 1) := by
      funext k
      match k with
      | 0 => rfl
      | 1 => rfl
      | 2 => rfl
    rw [hpool]
    exact PoolStep.call (show _ = Prog.call OnceOp.await _ from rfl) ⟨rfl, rfl⟩ rfl
  have hlate : PoolStep ((preflightInitializer sampleCpu).parties (Fin 3))
      (Function.update luckyPool 2 GateCall.hardwareWait.program,
        ⟨.full (some (.ok luckyPrepared)) t, 1⟩)
      (luckyPool, ⟨.full (some (.ok luckyPrepared)) t, 1⟩) := by
    have hpool : Function.update (Function.update luckyPool 2 GateCall.hardwareWait.program) 2
        (luckyPool 2) = luckyPool := by
      rw [Function.update_idem, Function.update_eq_self]
    have hstep := PoolStep.call (S := (preflightInitializer sampleCpu).parties (Fin 3))
      (c := Function.update luckyPool 2 GateCall.hardwareWait.program) (r := 2)
      (s := ⟨.full (some (.ok luckyPrepared)) t, 1⟩)
      (show _ = Prog.call OnceOp.get _ from rfl) ⟨rfl, rfl⟩ (show _ = luckyPool 2 from rfl)
    rwa [hpool] at hstep
  exact ⟨t, .head hearly (.head henter (.head (.env hends) (.head hawait (.single hlate))))⟩

theorem preflight_once_sample : ∃ t, Proven sampleCpu luckyPrepared t := by
  obtain ⟨t, hr⟩ := luckyRun
  obtain ⟨_, _, _, hstrategy, _⟩ := preflight_once sampleCpu luckyCall hr
  obtain ⟨prepared, t', hcell, _, hproven⟩ := hstrategy 2 _ rfl
  obtain ⟨hprepared, rfl⟩ := OnceCell.full.inj hcell
  cases hprepared
  exact ⟨t, hproven⟩

end Snoozer
