import Snoozer.WaitStrategy

/-! What one raw wait does, for every strategy: the order of its loads, deadline
checks and blocking calls is fixed by one small automaton. -/
namespace Snoozer
open Interactive

variable {V : Type}

/-- The calls that give up the processor: a yield or a hardware wait. -/
def WaitOp.blocks : WaitOp V → Bool
  | .yieldNow | .mwaitx _ _ | .umwaitC01 _ => true
  | _ => false

/-- Calls that neither look at the atomic or the clock nor block. -/
def WaitOp.silent : WaitOp V → Bool
  | .spinLoop | .monitorx _ | .umonitor _ | .readTscOrdered => true
  | _ => false

/-- The value a load event returned. -/
def loadedValue : WaitEvent V → Option V
  | ⟨.load _ _, v⟩ => some v
  | _ => none

/-- The reading of a clock event. -/
def clockReading : WaitEvent V → Option ℕ
  | ⟨.instantNow, now⟩ => some now
  | _ => none

def loadsOf (t : List (WaitEvent V)) : List V := t.filterMap loadedValue
def clocksOf (t : List (WaitEvent V)) : List ℕ := t.filterMap clockReading
def blocksOf (t : List (WaitEvent V)) : List (WaitEvent V) := t.filter fun e => e.1.blocks

/-- Where a raw wait stands between two of its calls. A `polled` phase owes a
deadline check; the `waited` phases come after the one blocking call. -/
inductive RawPhase (V : Type) where
  | polling
  | polled
  | waited
  | waitedPolled
  | rechecked
  | changed (value : V)
  | expired
  deriving DecidableEq, Repr

namespace RawPhase

def sawExpected (timed : Bool) : RawPhase V → Option (RawPhase V)
  | polling => some (if timed then polled else polling)
  | waited => some (if timed then waitedPolled else rechecked)
  | _ => none

def sawChange (v : V) : RawPhase V → Option (RawPhase V)
  | polling | waited => some (changed v)
  | _ => none

def checked (late : Bool) : RawPhase V → Option (RawPhase V)
  | polled => some (if late then expired else polling)
  | waitedPolled => some (if late then expired else rechecked)
  | _ => none

def block : RawPhase V → Option (RawPhase V)
  | polling => some waited
  | _ => none

def idle : RawPhase V → Option (RawPhase V)
  | polling => some polling
  | _ => none

end RawPhase

variable [DecidableEq V]

def rawProtocol (atomic : WaitableAtomic) (expected : V) (deadline : Option Deadline) :
    Protocol (WaitOp V) (WaitAns V) (RawPhase V) where
  next φ
    | .load a o => fun (v : V) =>
      if a = atomic.address ∧ o = .acquire then
        if v = expected then φ.sawExpected deadline.isSome else φ.sawChange v
      else none
    | .instantNow => fun (now : ℕ) =>
      match deadline with
      | none => none
      | some d => φ.checked (d.timeout ≤ d.elapsed now)
    | .yieldNow => fun _ => φ.block
    | .mwaitx _ _ => fun _ => φ.block
    | .umwaitC01 _ => fun _ => φ.block
    | .spinLoop => fun _ => φ.idle
    | .monitorx _ => fun _ => φ.idle
    | .umonitor _ => fun _ => φ.idle
    | .readTscOrdered => fun _ => φ.idle
    | .compareExchange _ _ _ _ _ => fun _ => none
    | .storeHandoff => fun _ => none

/-- The transitions of the protocol, one constructor for each kind of event. -/
inductive RawStep (atomic : WaitableAtomic) (expected : V) (deadline : Option Deadline) :
    RawPhase V → WaitEvent V → RawPhase V → Prop where
  | pollUntimed : deadline = none →
      RawStep atomic expected deadline .polling ⟨.load atomic.address .acquire, expected⟩ .polling
  | pollTimed {d : Deadline} : deadline = some d →
      RawStep atomic expected deadline .polling ⟨.load atomic.address .acquire, expected⟩ .polled
  | recheckUntimed : deadline = none →
      RawStep atomic expected deadline .waited ⟨.load atomic.address .acquire, expected⟩ .rechecked
  | recheckTimed {d : Deadline} : deadline = some d →
      RawStep atomic expected deadline .waited ⟨.load atomic.address .acquire, expected⟩ .waitedPolled
  | change {φ : RawPhase V} {v : V} : φ = .polling ∨ φ = .waited → v ≠ expected →
      RawStep atomic expected deadline φ ⟨.load atomic.address .acquire, v⟩ (.changed v)
  | early {φ φ' : RawPhase V} {d : Deadline} {now : ℕ} : deadline = some d →
      φ = .polled ∧ φ' = .polling ∨ φ = .waitedPolled ∧ φ' = .rechecked →
      d.elapsed now < d.timeout → RawStep atomic expected deadline φ ⟨.instantNow, now⟩ φ'
  | late {φ : RawPhase V} {d : Deadline} {now : ℕ} : deadline = some d →
      φ = .polled ∨ φ = .waitedPolled → d.timeout ≤ d.elapsed now →
      RawStep atomic expected deadline φ ⟨.instantNow, now⟩ .expired
  | block {e : WaitEvent V} : e.1.blocks = true → RawStep atomic expected deadline .polling e .waited
  | idle {e : WaitEvent V} : e.1.silent = true → RawStep atomic expected deadline .polling e .polling

/-- A step of the protocol by its call. -/
theorem rawStep_of_next {atomic : WaitableAtomic} {expected : V} {deadline : Option Deadline}
    {φ φ' : RawPhase V} {op : WaitOp V} {x : WaitAns V op}
    (hn : (rawProtocol atomic expected deadline).next φ op x = some φ') :
    RawStep atomic expected deadline φ ⟨op, x⟩ φ' := by
  cases op with
  | load a o =>
    simp only [rawProtocol] at hn
    split at hn
    · next ha =>
      obtain ⟨rfl, rfl⟩ := ha
      split at hn
      · next hv =>
        rw [show x = expected from hv]
        cases φ <;> cases deadline <;> cases hn
        · exact .pollUntimed rfl
        · exact .pollTimed rfl
        · exact .recheckUntimed rfl
        · exact .recheckTimed rfl
      · next hv =>
        cases φ <;> cases hn
        · exact .change (Or.inl rfl) hv
        · exact .change (Or.inr rfl) hv
    · cases hn
  | instantNow =>
    cases deadline with
    | none => cases hn
    | some d =>
      simp only [rawProtocol] at hn
      by_cases hl : d.timeout ≤ d.elapsed x
      · simp only [hl, decide_true] at hn
        cases φ <;> cases hn
        · exact .late rfl (Or.inl rfl) hl
        · exact .late rfl (Or.inr rfl) hl
      · simp only [hl, decide_false] at hn
        cases φ <;> cases hn
        · exact .early rfl (Or.inl ⟨rfl, rfl⟩) (Nat.not_le.mp hl)
        · exact .early rfl (Or.inr ⟨rfl, rfl⟩) (Nat.not_le.mp hl)
  | _ =>
    all_goals cases φ <;> cases hn
    all_goals first
      | exact .block rfl
      | exact .idle rfl

/-- The phase in which a raw wait returns a result. -/
def RawPhase.returning : WaitTimeoutResult V → RawPhase V
  | .changed v => .changed v
  | .unclassified => .rechecked
  | .timedOut => .expired

section Follows

variable {atomic : WaitableAtomic} {expected : V} {deadline : Option Deadline} {α : Type}
  {F : α → RawPhase V → Prop}

/-- A load, from a phase in which one may load. -/
theorem raw_follows_load {φ φ' : RawPhase V} {k : V → WaitProg V α}
    (hφ : φ.sawExpected deadline.isSome = some φ')
    (hc : ∀ v, v ≠ expected → (rawProtocol atomic expected deadline).Follows (k v) (.changed v) F)
    (he : (rawProtocol atomic expected deadline).Follows (k expected) φ' F) :
    (rawProtocol atomic expected deadline).Follows (.call (.load atomic.address .acquire) k) φ F := by
  apply Protocol.follows_call
  intro (v : V)
  by_cases hv : v = expected
  · subst hv
    exact ⟨φ', by simpa [rawProtocol] using hφ, he⟩
  · have hs : φ.sawChange v = some (.changed v) := by
      cases φ <;> first | rfl | cases hφ
    exact ⟨.changed v, by simpa [rawProtocol, hv] using hs, hc v hv⟩

/-- A deadline check, from a phase that owes one. -/
theorem raw_follows_remaining {d : Deadline} {φ φ' : RawPhase V} {k : Option ℕ → WaitProg V α}
    (hd : deadline = some d) (hlate : φ.checked true = some .expired)
    (hearly : φ.checked false = some φ')
    (hnone : (rawProtocol atomic expected deadline).Follows (k none) .expired F)
    (hsome : ∀ r, (rawProtocol atomic expected deadline).Follows (k (some r)) φ' F) :
    (rawProtocol atomic expected deadline).Follows (d.remaining.bind k) φ F := by
  subst hd
  simp only [Deadline.remaining, Prog.monad_bind_eq, Prog.pure_eq_ret, instantNow_bind,
    Prog.call_bind]
  apply Protocol.follows_call
  intro now
  by_cases hl : d.timeout ≤ d.elapsed now
  · refine ⟨.expired, by simpa [rawProtocol, hl] using hlate, ?_⟩
    simpa [hl] using hnone
  · refine ⟨φ', by simpa [rawProtocol, hl] using hearly, ?_⟩
    simpa [hl] using hsome _

/-- A check of the deadline that follows an expected value. -/
theorem raw_follows_expired {φ φ' φ'' : RawPhase V} {k : Bool → WaitProg V α}
    (hφ : φ.sawExpected deadline.isSome = some φ')
    (hφ' : φ.sawExpected false = some φ'')
    (ht : (rawProtocol atomic expected deadline).Follows (k true) .expired F)
    (hf : (rawProtocol atomic expected deadline).Follows (k false) φ'' F) :
    (rawProtocol atomic expected deadline).Follows ((deadlineExpired deadline).bind k) φ' F := by
  cases deadline with
  | none =>
    cases hφ.symm.trans hφ'
    exact hf
  | some d =>
    simp only [deadlineExpired, Prog.monad_bind_eq, Prog.bind_assoc, Prog.pure_eq_ret, Prog.ret_bind]
    have hstep : φ'.checked true = some .expired ∧ φ'.checked false = some φ'' := by
      cases φ <;> cases hφ <;> cases hφ' <;> exact ⟨rfl, rfl⟩
    exact raw_follows_remaining rfl hstep.1 hstep.2 ht fun _ => hf

/-- The pattern that every poll of the source repeats: load, compare, check the deadline. -/
theorem raw_follows_poll {φ φ' : RawPhase V} {kc : V → WaitProg V α} {kt kn : WaitProg V α}
    (hφ : φ.sawExpected false = some φ')
    (hc : ∀ v, v ≠ expected → (rawProtocol atomic expected deadline).Follows (kc v) (.changed v) F)
    (ht : (rawProtocol atomic expected deadline).Follows kt .expired F)
    (hn : (rawProtocol atomic expected deadline).Follows kn φ' F) :
    (rawProtocol atomic expected deadline).Follows
      (.call (.load atomic.address .acquire) fun (v : V) =>
        if v ≠ expected then kc v
        else (deadlineExpired deadline).bind fun b => if b = true then kt else kn) φ F := by
  obtain ⟨φ₁, hφ₁⟩ : ∃ φ₁, φ.sawExpected deadline.isSome = some φ₁ := by
    cases φ <;> first | exact ⟨_, rfl⟩ | cases hφ
  apply raw_follows_load hφ₁
  · intro v hv
    simpa [hv] using hc v hv
  · simp only [ne_eq, not_true_eq_false, ↓reduceIte]
    exact raw_follows_expired hφ₁ hφ ht hn

theorem raw_follows_idle {op : WaitOp V} (hop : op.silent = true) {k : WaitAns V op → WaitProg V α}
    (hk : ∀ x, (rawProtocol atomic expected deadline).Follows (k x) .polling F) :
    (rawProtocol atomic expected deadline).Follows (.call op k) .polling F := by
  apply Protocol.follows_call
  intro x
  refine ⟨.polling, ?_, hk x⟩
  cases op <;> first | rfl | cases hop

theorem raw_follows_block {op : WaitOp V} (hop : op.blocks = true) {k : WaitAns V op → WaitProg V α}
    (hk : ∀ x, (rawProtocol atomic expected deadline).Follows (k x) .waited F) :
    (rawProtocol atomic expected deadline).Follows (.call op k) .polling F := by
  apply Protocol.follows_call
  intro x
  refine ⟨.waited, ?_, hk x⟩
  cases op <;> first | rfl | cases hop

end Follows

section Strategies

variable (atomic : WaitableAtomic) (expected : V) (deadline : Option Deadline)

def RawReturns (r : WaitTimeoutResult V) (φ : RawPhase V) : Prop := φ = .returning r

/-- The spin prefix either decides the wait or leaves it polling. -/
def PrefixReturns (o : Option (WaitTimeoutResult V)) (φ : RawPhase V) : Prop :=
  match o with
  | none => φ = .polling
  | some r => φ = .returning r

/-- The hardware protocols return a changed value at once and go on otherwise. -/
theorem raw_follows_compare {atomic : WaitableAtomic} {expected : V} {deadline : Option Deadline}
    {φ φ' : RawPhase V} {k : WaitProg V (WaitTimeoutResult V)}
    (hφ : φ.sawExpected deadline.isSome = some φ')
    (hk : (rawProtocol atomic expected deadline).Follows k φ' RawReturns) :
    (rawProtocol atomic expected deadline).Follows
      (.call (.load atomic.address .acquire) fun (v : V) =>
        if v ≠ expected then .ret (.changed v) else k) φ RawReturns := by
  apply raw_follows_load hφ
  · intro v hv
    rw [if_pos hv]
    exact Protocol.follows_ret rfl
  · rw [if_neg (not_not_intro rfl)]
    exact hk

theorem spinIterationsLoop_follows (n : ℕ) : (rawProtocol atomic expected deadline).Follows
    (spinIterationsLoop atomic expected deadline n) .polling PrefixReturns := by
  induction n with
  | zero => exact Protocol.follows_ret rfl
  | succ n ih =>
    simp only [spinIterationsLoop, Prog.monad_bind_eq, Prog.pure_eq_ret, spinLoop_bind,
      loadAcquire_bind]
    refine raw_follows_idle rfl fun _ => ?_
    exact raw_follows_poll rfl (fun v _ => Protocol.follows_ret rfl) (Protocol.follows_ret rfl) ih

theorem spinPrefix_follows (n : ℕ) : (rawProtocol atomic expected deadline).Follows
    (spinPrefix atomic expected n deadline) .polling PrefixReturns := by
  simp only [spinPrefix, Prog.monad_bind_eq, Prog.pure_eq_ret, loadAcquire_bind]
  exact raw_follows_poll rfl (fun v _ => Protocol.follows_ret rfl) (Protocol.follows_ret rfl)
    (spinIterationsLoop_follows atomic expected deadline n)

theorem classifyAfterWait_follows : (rawProtocol atomic expected deadline).Follows
    (classifyAfterWait atomic expected deadline) .waited RawReturns := by
  simp only [classifyAfterWait, Prog.monad_bind_eq, Prog.pure_eq_ret, loadAcquire_bind]
  exact raw_follows_poll rfl (fun v _ => Protocol.follows_ret rfl) (Protocol.follows_ret rfl)
    (Protocol.follows_ret rfl)

theorem busySpin_follows : (rawProtocol atomic expected deadline).Follows
    (busySpinWaitRaw atomic expected deadline) .polling RawReturns := by
  simp only [busySpinWaitRaw, Prog.monad_bind_eq, Prog.pure_eq_ret, loadAcquire_bind, spinLoop_bind]
  apply Protocol.follows_loop
  refine raw_follows_poll rfl (fun v _ => Protocol.follows_ret ?_) (Protocol.follows_ret ?_) ?_
  · exact Protocol.follows_ret rfl
  · exact Protocol.follows_ret rfl
  · exact raw_follows_idle rfl fun _ => Protocol.follows_ret rfl

theorem spinThenYield_follows (n : ℕ) : (rawProtocol atomic expected deadline).Follows
    (spinThenYieldWaitRaw n atomic expected deadline) .polling RawReturns := by
  simp only [spinThenYieldWaitRaw, Prog.monad_bind_eq, Prog.pure_eq_ret, yieldNow_bind]
  apply Protocol.follows_bind
  refine Protocol.follows_mono (spinPrefix_follows atomic expected deadline n) ?_
  rintro (_ | r) φ hφ
  · cases hφ
    exact raw_follows_block rfl fun _ => classifyAfterWait_follows atomic expected deadline
  · exact Protocol.follows_ret hφ

theorem mwaitxRaw_follows (config : AmdConfig) (hint : ℕ) :
    (rawProtocol atomic expected none).Follows
      (mwaitxRawHardware config hint atomic expected) .polling RawReturns := by
  simp only [mwaitxRawHardware, mwaitxUntimedProtocol, Prog.monad_bind_eq, Prog.pure_eq_ret,
    loadAcquire_bind, monitorx_bind, mwaitx_bind]
  refine raw_follows_compare rfl ?_
  refine raw_follows_idle rfl fun _ => raw_follows_compare rfl ?_
  exact raw_follows_block rfl fun _ => classifyAfterWait_follows atomic expected none

theorem umwaitRaw_follows (config : IntelConfig) :
    (rawProtocol atomic expected none).Follows
      (umwaitRawHardware config atomic expected) .polling RawReturns := by
  simp only [umwaitRawHardware, umwaitUntimedProtocol, umwaitDeadline, Prog.monad_bind_eq,
    Prog.pure_eq_ret, loadAcquire_bind, umonitor_bind, readTscOrdered_bind, Prog.call_bind,
    Prog.ret_bind, umwaitC01_bind]
  refine raw_follows_compare rfl ?_
  refine raw_follows_idle rfl fun _ => raw_follows_compare rfl ?_
  refine raw_follows_idle rfl fun _ => ?_
  exact raw_follows_block rfl fun _ => classifyAfterWait_follows atomic expected none

theorem mwaitxRawTimeout_follows (config : AmdConfig) (hint : ℕ) (d : Deadline) :
    (rawProtocol atomic expected (some d)).Follows
      (mwaitxRawTimeoutHardware config hint atomic expected d) .polling RawReturns := by
  simp only [mwaitxRawTimeoutHardware, mwaitxTimedProtocol, Prog.monad_bind_eq, Prog.pure_eq_ret,
    loadAcquire_bind, monitorx_bind, mwaitx_bind]
  refine raw_follows_compare rfl ?_
  refine raw_follows_remaining rfl rfl rfl (Protocol.follows_ret rfl) fun _ => ?_
  refine raw_follows_idle rfl fun _ => raw_follows_compare rfl ?_
  refine raw_follows_remaining rfl rfl rfl (Protocol.follows_ret rfl) fun _ => ?_
  exact raw_follows_block rfl fun _ => classifyAfterWait_follows atomic expected (some d)

/-- The timed raw wait of the Intel processors obeys the protocol. -/
theorem umwaitRawTimeout_follows (config : IntelConfig) (d : Deadline) :
    (rawProtocol atomic expected (some d)).Follows
      (umwaitRawTimeoutHardware config atomic expected d) .polling RawReturns := by
  simp only [umwaitRawTimeoutHardware, umwaitTimedProtocol, umwaitDeadline, Prog.monad_bind_eq,
    Prog.pure_eq_ret, loadAcquire_bind, umonitor_bind, readTscOrdered_bind, Prog.call_bind,
    Prog.ret_bind, umwaitC01_bind]
  refine raw_follows_compare rfl ?_
  refine raw_follows_remaining rfl rfl rfl (Protocol.follows_ret rfl) fun _ => ?_
  refine raw_follows_idle rfl fun _ => raw_follows_compare rfl ?_
  refine raw_follows_remaining rfl rfl rfl (Protocol.follows_ret rfl) fun _ => ?_
  refine raw_follows_idle rfl fun _ => ?_
  exact raw_follows_block rfl fun _ => classifyAfterWait_follows atomic expected (some d)

/-- The raw wait of either backend obeys the protocol. -/
theorem hardwareWait_follows (config : HardwareConfig) :
    (rawProtocol atomic expected deadline).Follows
      (hardwareWait config atomic expected deadline) .polling RawReturns := by
  cases config with
  | amd config =>
    cases deadline with
    | none => exact mwaitxRaw_follows atomic expected config noCStateHint
    | some d => exact mwaitxRawTimeout_follows atomic expected config noCStateHint d
  | intel config =>
    cases deadline with
    | none => exact umwaitRaw_follows atomic expected config
    | some d => exact umwaitRawTimeout_follows atomic expected config d

theorem spinThenHardwareWait_follows (n : ℕ) (config : HardwareConfig) :
    (rawProtocol atomic expected deadline).Follows
      (spinThenHardwareWaitRaw n config atomic expected deadline) .polling RawReturns := by
  simp only [spinThenHardwareWaitRaw, Prog.monad_bind_eq, Prog.pure_eq_ret]
  apply Protocol.follows_bind
  refine Protocol.follows_mono (spinPrefix_follows atomic expected deadline n) ?_
  rintro (_ | r) φ hφ
  · cases hφ
    exact hardwareWait_follows atomic expected deadline config
  · exact Protocol.follows_ret hφ

/-- Every built-in strategy's raw wait obeys the one protocol. -/
theorem waitRaw_follows (strategy : WaitStrategy) : (rawProtocol atomic expected deadline).Follows
    (strategy.waitRaw atomic expected deadline) .polling RawReturns := by
  cases strategy with
  | busySpin => exact busySpin_follows atomic expected deadline
  | spinThenYield n => exact spinThenYield_follows atomic expected deadline n
  | hardwareWait config => exact hardwareWait_follows atomic expected deadline config
  | spinThenHardwareWait n config =>
    exact spinThenHardwareWait_follows atomic expected deadline n config
  | amdMwaitxC1 config =>
    cases deadline with
    | none => exact mwaitxRaw_follows atomic expected config c1StateHint
    | some d => exact mwaitxRawTimeout_follows atomic expected config c1StateHint d

/-- The overrides of `wait_raw_untimed` are the timed code without a deadline. -/
theorem waitRawUntimed_eq (strategy : WaitStrategy) :
    strategy.waitRawUntimed atomic expected = strategy.waitRaw atomic expected none := by
  cases strategy <;> rfl

end Strategies

end Snoozer
