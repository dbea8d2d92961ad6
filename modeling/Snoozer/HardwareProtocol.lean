import Snoozer.WaitStrategy
import Snoozer.RawWaitContract

/-! The arm, recheck, wait discipline of the hardware protocols on a processor
of which only this is assumed: arming clears a trigger and starts monitoring, a
store to the monitored atomic sets the trigger, and a wait may return at any time. -/
namespace Snoozer
open Interactive

variable {V : Type}

/-- The processor and the shared memory, with the waiter's events so far. -/
structure Processor (V : Type) where
  memory : ℕ → V
  monitored : Option ℕ
  trigger : Bool
  log : List (WaitEvent V)

namespace Processor

def record (s : Processor V) (e : WaitEvent V) : Processor V := { s with log := s.log ++ [e] }

def arm (s : Processor V) (address : ℕ) : Processor V :=
  { s with monitored := some address, trigger := false }

/-- A store by some producer. -/
def store (s : Processor V) (address : ℕ) (value : V) : Processor V :=
  { s with
    memory := fun a => if a = address then value else s.memory a
    trigger := s.trigger || decide (s.monitored = some address) }

@[simp] theorem record_memory (s : Processor V) (e : WaitEvent V) : (s.record e).memory = s.memory :=
  rfl

@[simp] theorem record_monitored (s : Processor V) (e : WaitEvent V) :
    (s.record e).monitored = s.monitored := rfl

@[simp] theorem record_trigger (s : Processor V) (e : WaitEvent V) :
    (s.record e).trigger = s.trigger := rfl

@[simp] theorem record_log (s : Processor V) (e : WaitEvent V) : (s.record e).log = s.log ++ [e] :=
  rfl

end Processor

/-- `x` answers the call in state `s`, which the call takes to `s'`. Clock and
counter readings are arbitrary. -/
def processorAct : (op : WaitOp V) → Processor V → WaitAns V op → Processor V → Prop
  | .load a o, s, (v : V), s' => v = s.memory a ∧ s' = s.record ⟨.load a o, v⟩
  | .compareExchange a current new o o', s, (x : Except V V), s' =>
    (s.memory a = current ∧ x = .ok current ∧
      s' = (s.store a new).record ⟨.compareExchange a current new o o', x⟩) ∨
    (s.memory a ≠ current ∧ x = .error (s.memory a) ∧
      s' = s.record ⟨.compareExchange a current new o o', x⟩)
  | .monitorx a, s, x, s' => s' = (s.arm a).record ⟨.monitorx a, x⟩
  | .umonitor a, s, x, s' => s' = (s.arm a).record ⟨.umonitor a, x⟩
  | op, s, x, s' => s' = s.record ⟨op, x⟩

/-- Any producer may store any value anywhere, and the trigger may be set for no reason. -/
inductive ProcessorEnv : Processor V → Processor V → Prop where
  | store (s : Processor V) (address : ℕ) (value : V) : ProcessorEnv s (s.store address value)
  | spurious (s : Processor V) : ProcessorEnv s { s with trigger := true }

def processor (V : Type) : Machine (WaitOp V) (WaitAns V) (Processor V) where
  act := processorAct
  env := ProcessorEnv

def WaitOp.arms (address : ℕ) : WaitOp V → Bool
  | .monitorx a | .umonitor a => a = address
  | _ => false

/-- `MWAITX` and `UMWAIT`. -/
def WaitOp.sleeps : WaitOp V → Bool
  | .mwaitx _ _ | .umwaitC01 _ => true
  | _ => false

def sleepsOf (t : List (WaitEvent V)) : List (WaitEvent V) := t.filter fun e => e.1.sleeps

/-- The events contain an arm of the atomic and, after it, a load that saw `expected`. -/
def ArmedRecheck (atomic : WaitableAtomic) (expected : V) (t : List (WaitEvent V)) : Prop :=
  ∃ t₁ a t₂ o t₃, t = t₁ ++ a :: t₂ ++ ⟨.load atomic.address o, expected⟩ :: t₃ ∧
    a.1.arms atomic.address = true

/-- What one call of a hardware protocol guarantees at every point of every
interleaving. `value` is the atomic's value that a result reports. -/
structure NoLostWake {α : Type} (atomic : WaitableAtomic) (expected : V) (value : α → Option V)
    (p : WaitProg V α) (s : Processor V) : Prop where
  blocked : ∀ op, p.head = some op → op.sleeps = true → s.trigger = false →
    s.memory atomic.address = expected
  waits_once : (sleepsOf s.log).length ≤ 1
  waits_guarded : ∀ pre w post, s.log = pre ++ w :: post → w.1.sleeps = true →
    ArmedRecheck atomic expected pre
  change_returned : ∀ pre e post v, s.log = pre ++ e :: post → loadedValue e = some v →
    v ≠ expected → post = [] ∧ ∃ a, p = .ret a ∧ value a = some v

inductive HardwarePhase (V : Type) where
  | entered
  | loaded
  | armed
  | rechecked
  | waited
  | classified
  | changed (value : V)
  deriving DecidableEq

namespace HardwarePhase

def sawExpected : HardwarePhase V → Option (HardwarePhase V)
  | entered => some loaded
  | armed | rechecked => some rechecked
  | waited => some classified
  | _ => none

def sawChange (v : V) : HardwarePhase V → Option (HardwarePhase V)
  | entered | armed | rechecked | waited => some (changed v)
  | _ => none

def arm : HardwarePhase V → Option (HardwarePhase V)
  | loaded => some armed
  | _ => none

def wait : HardwarePhase V → Option (HardwarePhase V)
  | rechecked => some waited
  | _ => none

/-- Clock and counter reads and the handoff store happen between a load and what follows it. -/
def aside : HardwarePhase V → Option (HardwarePhase V)
  | loaded => some loaded
  | rechecked => some rechecked
  | classified => some classified
  | _ => none

end HardwarePhase

variable [DecidableEq V]

def hardwareProtocol (atomic : WaitableAtomic) (expected : V) :
    Protocol (WaitOp V) (WaitAns V) (HardwarePhase V) where
  next φ
    | .load a _ => fun (v : V) =>
      if a = atomic.address then if v = expected then φ.sawExpected else φ.sawChange v else none
    | .monitorx a => fun _ => if a = atomic.address then φ.arm else none
    | .umonitor a => fun _ => if a = atomic.address then φ.arm else none
    | .mwaitx _ _ => fun _ => φ.wait
    | .umwaitC01 _ => fun _ => φ.wait
    | .instantNow => fun _ => φ.aside
    | .readTscOrdered => fun _ => φ.aside
    | .storeHandoff => fun _ => φ.aside
    | .compareExchange _ _ _ _ _ => fun _ => none
    | .spinLoop => fun _ => none
    | .yieldNow => fun _ => none

/-- The calls between a load and what follows it. -/
def WaitOp.isAside : WaitOp V → Bool
  | .instantNow | .readTscOrdered | .storeHandoff => true
  | _ => false

/-- The transitions, one constructor for each kind of event. -/
inductive HardwareStep (atomic : WaitableAtomic) (expected : V) :
    HardwarePhase V → WaitEvent V → HardwarePhase V → Prop where
  | same {φ φ' : HardwarePhase V} {o : MemOrdering} : φ.sawExpected = some φ' →
      HardwareStep atomic expected φ ⟨.load atomic.address o, expected⟩ φ'
  | change {φ : HardwarePhase V} {o : MemOrdering} {v : V} : φ.sawChange v = some (.changed v) →
      v ≠ expected → HardwareStep atomic expected φ ⟨.load atomic.address o, v⟩ (.changed v)
  | arm {e : WaitEvent V} : e.1 = .monitorx atomic.address ∨ e.1 = .umonitor atomic.address →
      HardwareStep atomic expected .loaded e .armed
  | wait {e : WaitEvent V} : e.1.sleeps = true → HardwareStep atomic expected .rechecked e .waited
  | aside {φ : HardwarePhase V} {e : WaitEvent V} : φ.aside = some φ → e.1.isAside = true →
      HardwareStep atomic expected φ e φ

/-- A step of the protocol by its call. -/
theorem hardwareStep_of_next {atomic : WaitableAtomic} {expected : V} {φ φ' : HardwarePhase V}
    {op : WaitOp V} {x : WaitAns V op}
    (hn : (hardwareProtocol atomic expected).next φ op x = some φ') :
    HardwareStep atomic expected φ ⟨op, x⟩ φ' := by
  have haside : ∀ e : WaitEvent V, e.1.isAside = true → φ.aside = some φ' →
      HardwareStep atomic expected φ e φ' := by
    intro e he h
    cases φ <;> cases h <;> exact .aside rfl he
  have hwait : ∀ e : WaitEvent V, e.1.sleeps = true → φ.wait = some φ' →
      HardwareStep atomic expected φ e φ' := by
    intro e he h
    cases φ <;> cases h
    exact .wait he
  have harm : ∀ e : WaitEvent V,
      e.1 = .monitorx atomic.address ∨ e.1 = .umonitor atomic.address → φ.arm = some φ' →
      HardwareStep atomic expected φ e φ' := by
    intro e he h
    cases φ <;> cases h
    exact .arm he
  cases op with
  | load a o =>
    simp only [hardwareProtocol] at hn
    split at hn
    · next ha =>
      subst ha
      split at hn
      · next hv =>
        rw [show x = expected from hv]
        exact .same hn
      · next hv =>
        have hφ : φ' = .changed x := by
          cases φ <;> cases hn <;> rfl
        subst hφ
        exact .change hn hv
    · cases hn
  | monitorx a =>
    simp only [hardwareProtocol] at hn
    split at hn
    · next ha => exact harm _ (Or.inl (by rw [ha])) hn
    · cases hn
  | umonitor a =>
    simp only [hardwareProtocol] at hn
    split at hn
    · next ha => exact harm _ (Or.inr (by rw [ha])) hn
    · cases hn
  | mwaitx _ _ => exact hwait _ rfl hn
  | umwaitC01 _ => exact hwait _ rfl hn
  | instantNow => exact haside _ rfl hn
  | readTscOrdered => exact haside _ rfl hn
  | storeHandoff => exact haside _ rfl hn
  | compareExchange _ _ _ _ _ => cases hn
  | spinLoop => cases hn
  | yieldNow => cases hn

end Snoozer
