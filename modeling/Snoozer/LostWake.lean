import Snoozer.HardwareProtocol
import Snoozer.RawWaitTrace
import Snoozer.WaitTermination

/-! No store is slept through: the five copies of the hardware protocol follow
one automaton, and its phases carry the link between trigger and memory. -/
namespace Snoozer
open Interactive

variable {V : Type}

section Log

variable (t t' : List (WaitEvent V)) (e : WaitEvent V)

@[simp] theorem sleepsOf_nil : sleepsOf ([] : List (WaitEvent V)) = [] := rfl

@[simp] theorem sleepsOf_append : sleepsOf (t ++ t') = sleepsOf t ++ sleepsOf t' :=
  List.filter_append t t'

@[simp] theorem sleepsOf_cons :
    sleepsOf (e :: t) = (if e.1.sleeps then [e] else []) ++ sleepsOf t := by
  simp only [sleepsOf, List.filter_cons]
  split <;> rfl

end Log

/-- Every load saw `expected`, and there is at most one wait, after an armed recheck. -/
structure Calm (atomic : WaitableAtomic) (expected : V) (t : List (WaitEvent V)) : Prop where
  loads : ∀ v ∈ loadsOf t, v = expected
  once : (sleepsOf t).length ≤ 1
  guarded : ∀ pre w post, t = pre ++ w :: post → w.1.sleeps = true →
    ArmedRecheck atomic expected pre

/-- What is known in each phase. After the recheck, a clear trigger means that
nothing was stored since. -/
def HardwareFacts (atomic : WaitableAtomic) (expected : V) (φ : HardwarePhase V)
    (s : Processor V) : Prop :=
  match φ with
  | .entered | .loaded => Calm atomic expected s.log ∧ sleepsOf s.log = []
  | .armed => Calm atomic expected s.log ∧ sleepsOf s.log = [] ∧
      s.monitored = some atomic.address ∧ ∃ a ∈ s.log, a.1.arms atomic.address = true
  | .rechecked => Calm atomic expected s.log ∧ sleepsOf s.log = [] ∧
      s.monitored = some atomic.address ∧ ArmedRecheck atomic expected s.log ∧
      (s.trigger = false → s.memory atomic.address = expected)
  | .waited | .classified => Calm atomic expected s.log
  | .changed v => ∃ t e, s.log = t ++ [e] ∧ loadedValue e = some v ∧ v ≠ expected ∧
      Calm atomic expected t

section Steps

variable {atomic : WaitableAtomic} {expected : V} {t : List (WaitEvent V)} {e : WaitEvent V}

theorem ArmedRecheck.append (h : ArmedRecheck atomic expected t) (t' : List (WaitEvent V)) :
    ArmedRecheck atomic expected (t ++ t') := by
  obtain ⟨t₁, a, t₂, o, t₃, rfl, ha⟩ := h
  exact ⟨t₁, a, t₂, o, t₃ ++ t', by simp, ha⟩

theorem armedRecheck_of_load {a : WaitEvent V} (ha : a ∈ t) (harm : a.1.arms atomic.address = true)
    (o : MemOrdering) :
    ArmedRecheck atomic expected (t ++ [⟨.load atomic.address o, expected⟩]) := by
  obtain ⟨t₁, t₂, rfl⟩ := List.append_of_mem ha
  exact ⟨t₁, a, t₂, o, [], by simp, harm⟩

/-- Where an event of an extended log stands. -/
theorem split_snoc {pre post : List (WaitEvent V)} {w : WaitEvent V}
    (h : t ++ [e] = pre ++ w :: post) :
    (pre = t ∧ w = e ∧ post = []) ∨ ∃ post', post = post' ++ [e] ∧ t = pre ++ w :: post' := by
  rcases List.eq_nil_or_concat post with rfl | ⟨post', last, rfl⟩
  · obtain ⟨rfl, hw⟩ := List.append_inj' h rfl
    exact Or.inl ⟨rfl, (List.cons.inj hw).1.symm, rfl⟩
  · rw [List.concat_eq_append, ← List.cons_append, ← List.append_assoc] at h
    obtain ⟨rfl, hl⟩ := List.append_inj' h rfl
    exact Or.inr ⟨post', by rw [(List.cons.inj hl).1, List.concat_eq_append], rfl⟩

theorem calm_guarded_snoc (h : Calm atomic expected t)
    (hw : e.1.sleeps = true → ArmedRecheck atomic expected t) :
    ∀ pre w post, t ++ [e] = pre ++ w :: post → w.1.sleeps = true →
      ArmedRecheck atomic expected pre := by
  intro pre w post ht hs
  rcases split_snoc ht with ⟨rfl, rfl, _⟩ | ⟨post', _, rfl⟩
  · exact hw hs
  · exact h.guarded pre w post' rfl hs

theorem calm_nil : Calm atomic expected ([] : List (WaitEvent V)) :=
  ⟨by simp, by simp, by simp⟩

theorem Calm.load (h : Calm atomic expected t) (he : loadedValue e = some expected)
    (hs : e.1.sleeps = false) : Calm atomic expected (t ++ [e]) := by
  refine ⟨?_, by simpa [hs] using h.once, calm_guarded_snoc h (by simp [hs])⟩
  intro v hv
  simp only [loadsOf_append, loadsOf_cons, he, Option.toList_some, loadsOf_nil, List.append_nil,
    List.mem_append, List.mem_singleton] at hv
  exact hv.elim (h.loads v) id

theorem Calm.silent (h : Calm atomic expected t) (he : loadedValue e = none)
    (hs : e.1.sleeps = false) : Calm atomic expected (t ++ [e]) :=
  ⟨by simpa [he] using h.loads, by simpa [hs] using h.once, calm_guarded_snoc h (by simp [hs])⟩

theorem Calm.wait (h : Calm atomic expected t) (hz : sleepsOf t = [])
    (hg : ArmedRecheck atomic expected t) (he : loadedValue e = none) (hs : e.1.sleeps = true) :
    Calm atomic expected (t ++ [e]) :=
  ⟨by simpa [he] using h.loads, by simp [hz, hs], calm_guarded_snoc h fun _ => hg⟩

theorem sleep_event (hs : e.1.sleeps = true) : loadedValue e = none := by
  obtain ⟨op, x⟩ := e
  cases op <;> first | rfl | cases hs

theorem aside_event (ha : e.1.isAside = true) : loadedValue e = none ∧ e.1.sleeps = false := by
  obtain ⟨op, x⟩ := e
  cases op <;> first | exact ⟨rfl, rfl⟩ | cases ha

variable {s s' : Processor V}

theorem processorAct_sleep (hs : e.1.sleeps = true) (h : processorAct e.1 s e.2 s') :
    s' = s.record e := by
  obtain ⟨op, x⟩ := e
  cases op <;> first | exact h | cases hs

theorem processorAct_aside (ha : e.1.isAside = true) (h : processorAct e.1 s e.2 s') :
    s' = s.record e := by
  obtain ⟨op, x⟩ := e
  cases op <;> first | exact h | cases ha

theorem processorAct_arm (ha : e.1 = .monitorx atomic.address ∨ e.1 = .umonitor atomic.address)
    (h : processorAct e.1 s e.2 s') : s' = (s.arm atomic.address).record e ∧
      e.1.arms atomic.address = true ∧ loadedValue e = none ∧ e.1.sleeps = false := by
  obtain ⟨op, x⟩ := e
  rcases ha with ha | ha
  · cases ha
    exact ⟨h, by simp [WaitOp.arms], rfl, rfl⟩
  · cases ha
    exact ⟨h, by simp [WaitOp.arms], rfl, rfl⟩

/-- What anybody else does keeps what the phase knows. -/
theorem hardwareFacts_env (φ : HardwarePhase V) :
    Stable (processor V) (HardwareFacts atomic expected φ) := by
  intro s s' hf henv
  cases henv with
  | spurious =>
    cases φ with
    | rechecked =>
      obtain ⟨hc, hz, hm, hr, _⟩ := hf
      exact ⟨hc, hz, hm, hr, fun h => by cases h⟩
    | _ => exact hf
  | store address value =>
    cases φ with
    | rechecked =>
      obtain ⟨hc, hz, hm, hr, htrig⟩ := hf
      refine ⟨hc, hz, hm, hr, fun h => ?_⟩
      simp only [Processor.store, Bool.or_eq_false_iff, decide_eq_false_iff_not] at h
      have hne : atomic.address ≠ address := fun heq => h.2 (by rw [hm, heq])
      simpa only [Processor.store, if_neg hne] using htrig h.1
    | _ => exact hf

/-- Each of the waiter's own events takes the facts of a phase to those of the next. -/
theorem hardwareFacts_act {φ φ' : HardwarePhase V} (hstep : HardwareStep atomic expected φ e φ')
    (hf : HardwareFacts atomic expected φ s) (hact : processorAct e.1 s e.2 s') :
    HardwareFacts atomic expected φ' s' := by
  cases hstep with
  | same hφ =>
    obtain ⟨hmem, rfl⟩ := hact
    cases φ with
    | entered =>
      cases hφ
      exact ⟨hf.1.load rfl rfl, by simp [hf.2, WaitOp.sleeps]⟩
    | armed =>
      cases hφ
      obtain ⟨hc, hz, hm, a, ha, harm⟩ := hf
      exact ⟨hc.load rfl rfl, by simp [hz, WaitOp.sleeps], hm, armedRecheck_of_load ha harm _,
        fun _ => hmem.symm⟩
    | rechecked =>
      cases hφ
      obtain ⟨hc, hz, hm, hr, _⟩ := hf
      exact ⟨hc.load rfl rfl, by simp [hz, WaitOp.sleeps], hm, hr.append _, fun _ => hmem.symm⟩
    | waited =>
      cases hφ
      have hc : Calm atomic expected s.log := hf
      exact hc.load rfl rfl
    | _ => cases hφ
  | change hφ hv =>
    obtain ⟨_, rfl⟩ := hact
    have hc : Calm atomic expected s.log := by
      cases φ with
      | entered => exact hf.1
      | armed => exact hf.1
      | rechecked => exact hf.1
      | waited => exact hf
      | _ => cases hφ
    exact ⟨s.log, _, rfl, rfl, hv, hc⟩
  | arm ha =>
    obtain ⟨rfl, harm, hl, hs⟩ := processorAct_arm ha hact
    exact ⟨hf.1.silent hl hs, by simpa [hs, Processor.arm] using hf.2, rfl, e, by simp, harm⟩
  | wait hs =>
    obtain ⟨hc, hz, _, hr, _⟩ := hf
    rw [processorAct_sleep hs hact]
    exact hc.wait hz hr (sleep_event hs) hs
  | aside hφ ha =>
    obtain ⟨hl, hs⟩ := aside_event ha
    rw [processorAct_aside ha hact]
    cases φ with
    | loaded => exact ⟨hf.1.silent hl hs, by simpa [hs] using hf.2⟩
    | rechecked =>
      obtain ⟨hc, hz, hm, hr, htrig⟩ := hf
      exact ⟨hc.silent hl hs, by simpa [hs] using hz, hm, hr.append _, htrig⟩
    | classified =>
      have hc : Calm atomic expected s.log := hf
      exact hc.silent hl hs
    | _ => cases hφ

end Steps

section Follows

variable [DecidableEq V] {atomic : WaitableAtomic} {expected : V} {α : Type}

/-- A call that ends in phase `changed v` reports `v`. -/
def ReportsChange (value : α → Option V) (a : α) (φ : HardwarePhase V) : Prop :=
  ∀ v, φ = .changed v → value a = some v

/-- After the load a wait reports the change or goes on with what it expects. -/
theorem hardware_follows_load {value : α → Option V} {φ φ' : HardwarePhase V} {o : MemOrdering}
    {k : V → WaitProg V α} (hφ : φ.sawExpected = some φ')
    (hc : ∀ v, v ≠ expected →
      (hardwareProtocol atomic expected).Follows (k v) (.changed v) (ReportsChange value))
    (hk : (hardwareProtocol atomic expected).Follows (k expected) φ' (ReportsChange value)) :
    (hardwareProtocol atomic expected).Follows (.call (.load atomic.address o) k) φ
      (ReportsChange value) := by
  apply Protocol.follows_call
  intro (v : V)
  by_cases hv : v = expected
  · subst hv
    exact ⟨φ', by simpa [hardwareProtocol] using hφ, hk⟩
  · have hs : φ.sawChange v = some (.changed v) := by
      cases φ <;> first | rfl | cases hφ
    exact ⟨.changed v, by simpa [hardwareProtocol, hv] using hs, hc v hv⟩

/-- Load, return a differing value at once, go on otherwise. -/
theorem hardware_follows_compare {value : α → Option V} {φ φ' : HardwarePhase V}
    {o : MemOrdering} {changed : V → α} {k : WaitProg V α} (hvalue : ∀ v, value (changed v) = some v)
    (hφ : φ.sawExpected = some φ')
    (hk : (hardwareProtocol atomic expected).Follows k φ' (ReportsChange value)) :
    (hardwareProtocol atomic expected).Follows
      (.call (.load atomic.address o) fun (v : V) =>
        if v ≠ expected then .ret (changed v) else k) φ (ReportsChange value) := by
  apply hardware_follows_load hφ
  · intro v hv
    rw [if_pos hv]
    refine Protocol.follows_ret fun u hu => ?_
    cases hu
    exact hvalue v
  · rw [if_neg (not_not_intro rfl)]
    exact hk

theorem hardware_follows_aside {F : α → HardwarePhase V → Prop} {op : WaitOp V}
    {φ : HardwarePhase V} {k : WaitAns V op → WaitProg V α} (hop : op.isAside = true)
    (hφ : φ.aside = some φ) (hk : ∀ x, (hardwareProtocol atomic expected).Follows (k x) φ F) :
    (hardwareProtocol atomic expected).Follows (.call op k) φ F := by
  apply Protocol.follows_call
  intro x
  refine ⟨φ, ?_, hk x⟩
  cases op <;> first | exact hφ | cases hop

theorem hardware_follows_arm {F : α → HardwarePhase V → Prop} {op : WaitOp V}
    {k : WaitAns V op → WaitProg V α}
    (hop : op = .monitorx atomic.address ∨ op = .umonitor atomic.address)
    (hk : ∀ x, (hardwareProtocol atomic expected).Follows (k x) .armed F) :
    (hardwareProtocol atomic expected).Follows (.call op k) .loaded F := by
  apply Protocol.follows_call
  intro x
  refine ⟨.armed, ?_, hk x⟩
  rcases hop with rfl | rfl
  · exact if_pos rfl
  · exact if_pos rfl

theorem hardware_follows_wait {F : α → HardwarePhase V → Prop} {op : WaitOp V}
    {k : WaitAns V op → WaitProg V α} (hop : op.sleeps = true)
    (hk : ∀ x, (hardwareProtocol atomic expected).Follows (k x) .waited F) :
    (hardwareProtocol atomic expected).Follows (.call op k) .rechecked F := by
  apply Protocol.follows_call
  intro x
  refine ⟨.waited, ?_, hk x⟩
  cases op <;> first | rfl | cases hop

theorem hardware_follows_remaining {F : α → HardwarePhase V → Prop} {φ : HardwarePhase V}
    {d : Deadline} {k : Option ℕ → WaitProg V α} (hφ : φ.aside = some φ)
    (hk : ∀ o, (hardwareProtocol atomic expected).Follows (k o) φ F) :
    (hardwareProtocol atomic expected).Follows (d.remaining.bind k) φ F := by
  simp only [Deadline.remaining, Prog.monad_bind_eq, Prog.pure_eq_ret, instantNow_bind,
    Prog.call_bind]
  refine hardware_follows_aside rfl hφ fun now => ?_
  split
  · exact hk none
  · exact hk _

/-- A result that reports no change may be returned in any phase that saw none. -/
theorem hardware_follows_ret {value : α → Option V} {a : α} {φ : HardwarePhase V}
    (hφ : φ.aside = some φ) :
    (hardwareProtocol atomic expected).Follows (.ret a) φ (ReportsChange value) := by
  refine Protocol.follows_ret fun v hv => ?_
  subst hv
  cases hφ

end Follows

/-- The value that a raw result reports. -/
def WaitTimeoutResult.changedValue : WaitTimeoutResult V → Option V
  | .changed v => some v
  | _ => none

section Programs

variable [DecidableEq V] (atomic : WaitableAtomic) (expected : V)

theorem classifyAfterWait_hardware (deadline : Option Deadline) :
    (hardwareProtocol atomic expected).Follows (classifyAfterWait atomic expected deadline) .waited
      (ReportsChange WaitTimeoutResult.changedValue) := by
  simp only [classifyAfterWait, Prog.monad_bind_eq, Prog.pure_eq_ret, loadAcquire_bind]
  refine hardware_follows_compare (fun _ => rfl) rfl ?_
  cases deadline with
  | none => exact hardware_follows_ret rfl
  | some d =>
    simp only [deadlineExpired, Prog.monad_bind_eq, Prog.bind_assoc]
    refine hardware_follows_remaining rfl fun o => ?_
    cases o <;> exact hardware_follows_ret rfl

theorem mwaitxUntimed_hardware (config : AmdConfig) (hint : ℕ) :
    (hardwareProtocol atomic expected).Follows
      (mwaitxUntimedProtocol config hint atomic expected monitorx mwaitx) .entered
      (ReportsChange WaitTimeoutResult.changedValue) := by
  simp only [mwaitxUntimedProtocol, Prog.monad_bind_eq, Prog.pure_eq_ret, loadAcquire_bind,
    monitorx_bind, mwaitx_bind]
  refine hardware_follows_compare (fun _ => rfl) rfl ?_
  refine hardware_follows_arm (Or.inl rfl) fun _ => hardware_follows_compare (fun _ => rfl) rfl ?_
  exact hardware_follows_wait rfl fun _ => classifyAfterWait_hardware atomic expected none

/-- The timed wait of the AMD processors obeys the protocol of the monitor. -/
theorem mwaitxTimed_hardware (config : AmdConfig) (hint : ℕ) (d : Deadline) :
    (hardwareProtocol atomic expected).Follows
      (mwaitxTimedProtocol config hint atomic expected d monitorx mwaitx) .entered
      (ReportsChange WaitTimeoutResult.changedValue) := by
  simp only [mwaitxTimedProtocol, Prog.monad_bind_eq, Prog.pure_eq_ret, loadAcquire_bind,
    monitorx_bind, mwaitx_bind]
  refine hardware_follows_compare (fun _ => rfl) rfl ?_
  refine hardware_follows_remaining rfl fun o => ?_
  split
  · exact hardware_follows_ret rfl
  · refine hardware_follows_arm (Or.inl rfl) fun _ =>
      hardware_follows_compare (fun _ => rfl) rfl ?_
    refine hardware_follows_remaining rfl fun o => ?_
    cases o with
    | none => exact hardware_follows_ret rfl
    | some r =>
      exact hardware_follows_wait rfl fun _ => classifyAfterWait_hardware atomic expected (some d)

theorem umwaitUntimed_hardware (config : IntelConfig) :
    (hardwareProtocol atomic expected).Follows
      (umwaitUntimedProtocol config atomic expected umonitor umwaitDeadline umwaitC01) .entered
      (ReportsChange WaitTimeoutResult.changedValue) := by
  simp only [umwaitUntimedProtocol, umwaitDeadline, Prog.monad_bind_eq, Prog.pure_eq_ret,
    loadAcquire_bind, umonitor_bind, readTscOrdered_bind, Prog.call_bind, Prog.ret_bind,
    umwaitC01_bind]
  refine hardware_follows_compare (fun _ => rfl) rfl ?_
  refine hardware_follows_arm (Or.inr rfl) fun _ => hardware_follows_compare (fun _ => rfl) rfl ?_
  refine hardware_follows_aside rfl rfl fun _ => ?_
  exact hardware_follows_wait rfl fun _ => classifyAfterWait_hardware atomic expected none

/-- The timed wait of the Intel processors obeys the protocol of the monitor. -/
theorem umwaitTimed_hardware (config : IntelConfig) (d : Deadline) :
    (hardwareProtocol atomic expected).Follows
      (umwaitTimedProtocol config atomic expected d umonitor umwaitDeadline umwaitC01) .entered
      (ReportsChange WaitTimeoutResult.changedValue) := by
  simp only [umwaitTimedProtocol, umwaitDeadline, Prog.monad_bind_eq, Prog.pure_eq_ret,
    loadAcquire_bind, umonitor_bind, readTscOrdered_bind, Prog.call_bind, Prog.ret_bind,
    umwaitC01_bind]
  refine hardware_follows_compare (fun _ => rfl) rfl ?_
  refine hardware_follows_remaining rfl fun o => ?_
  split
  · exact hardware_follows_ret rfl
  · refine hardware_follows_arm (Or.inr rfl) fun _ =>
      hardware_follows_compare (fun _ => rfl) rfl ?_
    refine hardware_follows_remaining rfl fun o => ?_
    cases o with
    | none => exact hardware_follows_ret rfl
    | some r =>
      refine hardware_follows_aside rfl rfl fun _ => ?_
      exact hardware_follows_wait rfl fun _ => classifyAfterWait_hardware atomic expected (some d)

end Programs

/-- The preflight waits on a zero word and returns whatever it loaded last. -/
theorem preflight_hardware (config : HardwareConfig) (target : WaitableAtomic) :
    (hardwareProtocol target 0).Follows (preflightWaitOnce config target) .entered
      (ReportsChange some) := by
  have hlast : (hardwareProtocol target 0).Follows (target.load .acquire) .waited
      (ReportsChange some) := by
    refine hardware_follows_load rfl (fun v _ => ?_) (hardware_follows_ret rfl)
    refine Protocol.follows_ret fun u hu => ?_
    cases hu
    rfl
  simp only [preflightWaitOnce, umwaitDeadline, Prog.monad_bind_eq, Prog.pure_eq_ret, load_bind,
    monitorx_bind, umonitor_bind, storeHandoff_bind, mwaitx_bind, readTscOrdered_bind,
    Prog.call_bind, Prog.ret_bind, umwaitC01_bind]
  refine hardware_follows_compare (fun _ => rfl) rfl ?_
  cases config with
  | amd config =>
    refine hardware_follows_arm (Or.inl rfl) fun _ => ?_
    refine hardware_follows_compare (fun _ => rfl) rfl ?_
    refine hardware_follows_aside rfl rfl fun _ => ?_
    refine hardware_follows_compare (fun _ => rfl) rfl ?_
    exact hardware_follows_wait rfl fun _ => hlast
  | intel config =>
    refine hardware_follows_arm (Or.inr rfl) fun _ => ?_
    refine hardware_follows_compare (fun _ => rfl) rfl ?_
    refine hardware_follows_aside rfl rfl fun _ => ?_
    refine hardware_follows_compare (fun _ => rfl) rfl ?_
    refine hardware_follows_aside rfl rfl fun _ => ?_
    exact hardware_follows_wait rfl fun _ => hlast

theorem preflight_loopFree (config : HardwareConfig) (target : WaitableAtomic) :
    (preflightWaitOnce config target).LoopFree := by
  simp only [preflightWaitOnce, umwaitDeadline, Prog.monad_bind_eq, Prog.pure_eq_ret, load_bind,
    monitorx_bind, umonitor_bind, storeHandoff_bind, mwaitx_bind, readTscOrdered_bind,
    Prog.call_bind, Prog.ret_bind, umwaitC01_bind]
  refine fun _ => .ite trivial ?_
  cases config with
  | amd config => exact fun _ _ => .ite trivial fun _ _ => .ite trivial fun _ _ => trivial
  | intel config => exact fun _ _ => .ite trivial fun _ _ => .ite trivial fun _ _ _ => trivial

/-- The guarantees hold at every point of every interleaving of one call. -/
def NeverLosesWake {α : Type} (atomic : WaitableAtomic) (expected : V) (value : α → Option V)
    (p : WaitProg V α) : Prop :=
  ∀ s₀ : Processor V, s₀.log = [] → ∀ p' s, Reach (processor V) (p, s₀) (p', s) →
    NoLostWake atomic expected value p' s

section Main

variable [DecidableEq V] {atomic : WaitableAtomic} {expected : V} {α : Type}

/-- In a phase that permits a hardware wait, a clear trigger means an unchanged atomic. -/
theorem hardwareFacts_blocked {φ : HardwarePhase V} {s : Processor V} {op : WaitOp V}
    (hf : HardwareFacts atomic expected φ s) (hop : op.sleeps = true)
    (hallow : (hardwareProtocol atomic expected).Allows (some op) φ) (htrig : s.trigger = false) :
    s.memory atomic.address = expected := by
  have hφ : φ.wait.isSome := by
    cases op with
    | mwaitx _ _ => exact hallow _ rfl ()
    | umwaitC01 _ => exact hallow _ rfl ()
    | _ => cases hop
  cases φ with
  | rechecked => exact hf.2.2.2.2 htrig
  | _ => cases hφ

/-- After a change no call is permitted. -/
theorem not_allows_changed (u : V) (op : WaitOp V) :
    ¬ (hardwareProtocol atomic expected).Allows (some op) (.changed u) := by
  intro h
  have hnone : ∀ x, ((hardwareProtocol atomic expected).next (.changed u) op x) = none := by
    intro x
    cases op <;> simp [hardwareProtocol, HardwarePhase.sawExpected, HardwarePhase.sawChange,
      HardwarePhase.arm, HardwarePhase.wait, HardwarePhase.aside]
  have hsome : ∀ x : WaitAns V op, False := by
    intro x
    have hx := h op rfl x
    rw [hnone x] at hx
    cases hx
  cases op with
  | load _ _ => exact hsome u
  | compareExchange _ _ _ _ _ => exact hsome (.ok u)
  | instantNow => exact hsome (0 : ℕ)
  | readTscOrdered => exact hsome (0 : ℕ)
  | _ => exact hsome ()

omit [DecidableEq V] in
theorem Calm.noLostWake {p : WaitProg V α} {value : α → Option V} {s : Processor V}
    (hc : Calm atomic expected s.log)
    (hb : ∀ op, p.head = some op → op.sleeps = true → s.trigger = false →
      s.memory atomic.address = expected) : NoLostWake atomic expected value p s := by
  refine ⟨hb, hc.once, hc.guarded, fun pre e post v ht he hv => absurd ?_ hv⟩
  apply hc.loads v
  rw [ht]
  simp [he]

/-- A wait that obeys the protocol of the monitor loses no wake. -/
theorem neverLosesWake_of_follows {p : WaitProg V α} {value : α → Option V} (hfree : p.LoopFree)
    (hp : (hardwareProtocol atomic expected).Follows p .entered (ReportsChange value)) :
    NeverLosesWake atomic expected value p := by
  intro s₀ hlog p' s hr
  have hs₀ : HardwareFacts atomic expected .entered s₀ := by
    simp only [HardwareFacts, hlog]
    exact ⟨calm_nil, rfl⟩
  obtain ⟨φ, hN, hf⟩ := hp.reach hardwareFacts_env
    (fun φ op x φ' s s' hn hf hact => hardwareFacts_act (e := ⟨op, x⟩) (hardwareStep_of_next hn) hf
      hact) hs₀ hr
  obtain ⟨hallow, hret⟩ := hp _ _ hN
  have hb : ∀ op, p'.head = some op → op.sleeps = true → s.trigger = false →
      s.memory atomic.address = expected := by
    intro op hop hs
    rw [hop] at hallow
    exact hardwareFacts_blocked hf hs hallow
  cases φ with
  | entered => exact hf.1.noLostWake hb
  | loaded => exact hf.1.noLostWake hb
  | armed => exact hf.1.noLostWake hb
  | rechecked => exact hf.1.noLostWake hb
  | waited => exact Calm.noLostWake hf hb
  | classified => exact Calm.noLostWake hf hb
  | changed u =>
    obtain ⟨t, e, ht, he, hu, hc⟩ := hf
    have hload : e.1.sleeps = false := by
      obtain ⟨op, x⟩ := e
      cases op <;> first | rfl | cases he
    -- Nothing is permitted after the change and there is no loop left: the call has returned.
    obtain ⟨a, rfl⟩ : ∃ a, p' = .ret a := by
      cases p' with
      | ret a => exact ⟨a, rfl⟩
      | call op k => exact (not_allows_changed u op hallow).elim
      | loop body k => exact (hfree.reach hr).elim
    refine ⟨hb, ?_, ?_, ?_⟩
    · rw [ht]
      simpa [hload] using hc.once
    · rw [ht]
      exact calm_guarded_snoc hc (by simp [hload])
    · intro pre e' post v hpre he' hv
      rw [ht] at hpre
      rcases split_snoc hpre with ⟨rfl, rfl, rfl⟩ | ⟨post', _, rfl⟩
      · cases he.symm.trans he'
        exact ⟨rfl, a, rfl, hret a rfl _ rfl⟩
      · exact absurd (hc.loads v (by simp [he'])) hv

/-- No wake is lost in any of the five copies of the protocol. -/
theorem hardwareProtocols_never_lose_wake (amd : AmdConfig) (intel : IntelConfig)
    (config : HardwareConfig) (hint : ℕ) (atomic : WaitableAtomic) (expected : V)
    (deadline : Deadline) :
    NeverLosesWake atomic expected WaitTimeoutResult.changedValue
        (mwaitxUntimedProtocol amd hint atomic expected monitorx mwaitx) ∧
      NeverLosesWake atomic expected WaitTimeoutResult.changedValue
        (mwaitxTimedProtocol amd hint atomic expected deadline monitorx mwaitx) ∧
      NeverLosesWake atomic expected WaitTimeoutResult.changedValue
        (umwaitUntimedProtocol intel atomic expected umonitor umwaitDeadline umwaitC01) ∧
      NeverLosesWake atomic expected WaitTimeoutResult.changedValue
        (umwaitTimedProtocol intel atomic expected deadline umonitor umwaitDeadline umwaitC01) ∧
      NeverLosesWake atomic 0 some (preflightWaitOnce config atomic) :=
  ⟨neverLosesWake_of_follows (mwaitxUntimed_loopFree atomic expected amd hint)
      (mwaitxUntimed_hardware atomic expected amd hint),
    neverLosesWake_of_follows (mwaitxTimed_loopFree atomic expected amd hint deadline)
      (mwaitxTimed_hardware atomic expected amd hint deadline),
    neverLosesWake_of_follows (umwaitUntimed_loopFree atomic expected intel)
      (umwaitUntimed_hardware atomic expected intel),
    neverLosesWake_of_follows (umwaitTimed_loopFree atomic expected intel deadline)
      (umwaitTimed_hardware atomic expected intel deadline),
    neverLosesWake_of_follows (preflight_loopFree config atomic)
      (preflight_hardware config atomic)⟩

end Main

end Snoozer
