import Snoozer.FilteredWait

/-! The one-token mailbox of `src/parker.rs`: the consumer's four operations over
any built-in strategy, and the producers' `unpark`. -/
namespace Snoozer
open Interactive

def emptyToken : UInt32 := 0
def notifiedToken : UInt32 := 1

inductive ParkResult where
  | notified | unclassified
  deriving DecidableEq, Repr

inductive ParkTimeoutResult where
  | notified | unclassified | timedOut
  deriving DecidableEq, Repr

inductive NotificationTimeoutResult where
  | notified | timedOut
  deriving DecidableEq, Repr

def WaitableAtomic.compareExchange {V : Type} (atomic : WaitableAtomic) (current new : V)
    (success failure : MemOrdering) : WaitProg V (Except V V) :=
  Prog.perform (WaitOp.compareExchange atomic.address current new success failure)

@[simp] theorem compareExchange_bind {V α : Type} (atomic : WaitableAtomic) (current new : V)
    (success failure : MemOrdering) (f : Except V V → WaitProg V α) :
    (atomic.compareExchange current new success failure).bind f =
      .call (.compareExchange atomic.address current new success failure) f := rfl

/-- The shared token and the consumer's strategy. -/
structure ParkerCore where
  token : WaitableAtomic
  strategy : WaitStrategy

namespace ParkerCore

variable (core : ParkerCore)

def takeNotification : WaitProg UInt32 Bool := do
  let observed ← core.token.load .relaxed
  if observed ≠ notifiedToken then
    return false
  else
    let exchanged ← core.token.compareExchange notifiedToken emptyToken .acquire .relaxed
    return exchanged.isOk

def park : WaitProg UInt32 ParkResult := do
  if ← core.takeNotification then
    return .notified
  else
    let _waitResult ← core.strategy.waitIfEqual core.token emptyToken
    if ← core.takeNotification then
      return .notified
    else
      return .unclassified

/-- The closing `debug_assert!(consumed)` is a fact about every run; see `takeNotification_seen`. -/
def parkUntilNotified : WaitProg UInt32 Unit := do
  if ← core.takeNotification then
    return ()
  else
    let _observed ← core.strategy.waitUntilDifferent core.token emptyToken
    let _consumed ← core.takeNotification
    return ()

def parkTimeout (timeout : ℕ) : WaitProg UInt32 ParkTimeoutResult := do
  if ← core.takeNotification then
    return .notified
  else
    let waitResult ← core.strategy.waitIfEqualTimeout core.token emptyToken timeout
    if ← core.takeNotification then
      return .notified
    else
      match waitResult with
      | .timedOut => return .timedOut
      | .changed _ | .unclassified => return .unclassified

def parkUntilNotifiedTimeout (timeout : ℕ) : WaitProg UInt32 NotificationTimeoutResult := do
  if ← core.takeNotification then
    return .notified
  else
    match ← core.strategy.waitUntilDifferentTimeout core.token emptyToken timeout with
    | .changed _ =>
      let _consumed ← core.takeNotification
      return .notified
    | .timedOut =>
      if ← core.takeNotification then
        return .notified
      else
        return .timedOut

end ParkerCore

/-- The two ways to build a pair. -/
inductive PairKind where
  | single | multi
  deriving DecidableEq, Repr

/-- `SingleUnparker::unpark` stores the token, `MultiUnparker::unpark` ORs it in. -/
def unparkToken : PairKind → UInt32 → UInt32
  | .single, _ => notifiedToken
  | .multi, token => token ||| notifiedToken

/-- The consumer's operations, as a caller chooses between them. -/
inductive ParkCall where
  | park
  | parkUntilNotified
  | parkTimeout (timeout : ℕ)
  | parkUntilNotifiedTimeout (timeout : ℕ)
  deriving DecidableEq, Repr

/-- The four result types as one. -/
inductive ParkOutcome where
  | notified | unclassified | timedOut
  deriving DecidableEq, Repr

def ParkResult.outcome : ParkResult → ParkOutcome
  | .notified => .notified
  | .unclassified => .unclassified

def ParkTimeoutResult.outcome : ParkTimeoutResult → ParkOutcome
  | .notified => .notified
  | .unclassified => .unclassified
  | .timedOut => .timedOut

def NotificationTimeoutResult.outcome : NotificationTimeoutResult → ParkOutcome
  | .notified => .notified
  | .timedOut => .timedOut

/-- A return of `park_until_notified` counts as a notification. -/
def ParkCall.program (core : ParkerCore) : ParkCall → WaitProg UInt32 ParkOutcome
  | .park => do return (← core.park).outcome
  | .parkUntilNotified => do
    core.parkUntilNotified
    return .notified
  | .parkTimeout timeout => do return (← core.parkTimeout timeout).outcome
  | .parkUntilNotifiedTimeout timeout => do
    return (← core.parkUntilNotifiedTimeout timeout).outcome

/-- The states between two operations of a consumer that runs any operations, one
after the other, while the producers do what the machine lets them at any time. -/
inductive Session {σ : Type} (M : Machine (WaitOp UInt32) (WaitAns UInt32) σ) (core : ParkerCore)
    (s₀ : σ) : σ → Prop where
  | new : Session M core s₀ s₀
  | interference {s s' : σ} : Session M core s₀ s → M.env s s' → Session M core s₀ s'
  | operation {s s' : σ} {r : ParkOutcome} (call : ParkCall) : Session M core s₀ s →
      Reach M (call.program core, s) (.ret r, s') → Session M core s₀ s'

end Snoozer
