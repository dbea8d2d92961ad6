import Snoozer.ProgramPool
import Mathlib.Algebra.Order.Group.Int
import Mathlib.Algebra.Group.Nat.Defs

/-! The offset between the time stamp counters of two processors is estimated by a handshake of
two threads: the controller stamps, requests, awaits the response and stamps again, the worker
stamps in between. Every processor has a counter of its own and threads may migrate. -/
namespace Snoozer
open Interactive Interactive.Fallible

/-- What `stamp` reads: a counter and the processor that it belongs to. -/
structure Stamp where
  cycles : ℕ
  auxiliary : ℕ
  deriving DecidableEq, Repr

inductive TscThread where
  | controller
  | worker
  deriving DecidableEq, Repr

/-- The calls of both threads; `finish` is the return of the worker's closure. -/
inductive TscOp where
  | pinCurrent (cpu : ℕ)
  | stamp
  | spin
  | loadReady
  | storeReady
  | workerFinished
  | startupElapsed
  | storeRequest (sequence : ℕ)
  | loadRequest
  | storeResponse (sequence : ℕ)
  | loadResponse
  | storeRemoteCycles (cycles : ℕ)
  | loadRemoteCycles
  | storeFailed
  | loadFailed
  | finish (result : Except String Unit)
  | join

/-- A worker that has panicked joins with `none`. -/
abbrev TscAns : TscOp → Type
  | .pinCurrent _ => Except String Unit
  | .stamp => Stamp
  | .loadReady | .workerFinished | .startupElapsed | .loadFailed => Bool
  | .loadRequest | .loadResponse | .loadRemoteCycles => ℕ
  | .join => Option (Except String Unit)
  | .spin | .storeReady | .storeRequest _ | .storeResponse _ | .storeRemoteCycles _
  | .storeFailed | .finish _ => Unit

abbrev TscProg := Prog TscOp TscAns

abbrev TscFallible := Fallible TscOp TscAns String

def noteMigration (expectedAux : ℕ) (stamp : Stamp) : TscProg Unit :=
  if stamp.auxiliary ≠ expectedAux then Prog.perform TscOp.storeFailed else pure ()

/-- The rounds from `sequence` on. -/
def serveRounds (expectedAux : ℕ) : ℕ → ℕ → TscProg Unit
  | 0, _ => pure ()
  | rounds + 1, sequence =>
    Prog.loop (do
      let request ← Prog.perform TscOp.loadRequest
      if (request : ℕ) ≠ sequence then
        Prog.perform TscOp.spin
        return none
      else
        return some ()) fun _ => do
    let stamp ← Prog.perform TscOp.stamp
    noteMigration expectedAux stamp
    Prog.perform (TscOp.storeRemoteCycles stamp.cycles)
    Prog.perform (TscOp.storeResponse sequence)
    serveRounds expectedAux rounds (sequence + 1)

def tscWorker (samples cpu : ℕ) : TscProg Unit := do
  match ← Prog.perform (TscOp.pinCurrent cpu) with
  | .error e => Prog.perform (TscOp.finish (.error e))
  | .ok () =>
    let expected ← Prog.perform TscOp.stamp
    Prog.perform TscOp.storeReady
    serveRounds expected.auxiliary samples 1
    Prog.perform (TscOp.finish (.ok ()))

def u64Max : ℕ := 2 ^ 64 - 1

structure BestRound where
  roundTrip : ℕ
  offset : ℤ
  deriving DecidableEq, Repr

def BestRound.initial : BestRound := ⟨u64Max, 0⟩

/-- Only a strictly shorter round replaces the best one. -/
def BestRound.improve (best : BestRound) (before remoteCycles after : ℕ) : BestRound :=
  let roundTrip := after - before
  if roundTrip < best.roundTrip then
    let midpoint := before + roundTrip / 2
    ⟨roundTrip, remoteCycles - midpoint⟩
  else
    best

def awaitReady : TscFallible Unit := iterate do
  if ← ask TscOp.loadReady then
    return some ()
  else if ← ask TscOp.workerFinished then
    throw "TSC skew worker did not reach its start barrier"
  else if ← ask TscOp.startupElapsed then
    throw "TSC skew worker did not reach its start barrier"
  else
    ask TscOp.spin
    return none

def awaitResponse (sequence : ℕ) : TscFallible Unit := iterate do
  let response ← ask TscOp.loadResponse
  if (response : ℕ) ≠ sequence then
    ask TscOp.spin
    return none
  else
    return some ()

def measureRound (controllerAux sequence : ℕ) (best : BestRound) : TscFallible BestRound := do
  let before ← ask TscOp.stamp
  ask (TscOp.storeRequest sequence)
  awaitResponse sequence
  let remoteCycles ← ask TscOp.loadRemoteCycles
  let after ← ask TscOp.stamp
  if before.auxiliary ≠ controllerAux ∨ after.auxiliary ≠ controllerAux ∨
      after.cycles < before.cycles then
    throw "controller migrated during TSC skew preflight"
  else
    return best.improve before.cycles remoteCycles after.cycles

def measureRounds (controllerAux : ℕ) : ℕ → ℕ → BestRound → TscFallible BestRound
  | 0, _, best => pure best
  | rounds + 1, sequence, best => do
    let best ← measureRound controllerAux sequence best
    measureRounds controllerAux rounds (sequence + 1) best

/-- `i64::try_from`. -/
def offsetToI64 (offset : ℤ) : TscFallible ℤ :=
  if -2 ^ 63 ≤ offset ∧ offset < 2 ^ 63 then
    pure offset
  else
    throw "TSC offset does not fit i64"

def estimateRemoteTscOffset (samples : ℕ) : TscFallible (ℤ × ℕ) := do
  awaitReady
  let controller ← ask TscOp.stamp
  let best ← measureRounds controller.auxiliary samples 1 BestRound.initial
  match ← ask TscOp.join with
  | none => throw "TSC skew worker panicked"
  | some (.error e) => throw e
  | some (.ok ()) =>
    if ← ask TscOp.loadFailed then
      throw "remote thread migrated during TSC skew preflight"
    else
      let offset ← offsetToI64 best.offset
      return (offset, best.roundTrip / 2)

/-- The bound that `TscSkew::preflight` tests, in cycles. -/
def skewBoundCycles (offset : ℤ) (uncertainty : ℕ) : ℕ :=
  min (offset.natAbs + uncertainty) (2 ^ 128 - 1)

/-- A stamp and the instant at which it was taken. -/
structure Reading extends Stamp where
  instant : ℕ
  deriving DecidableEq, Repr

/-- Counters never run backwards. -/
structure TscCounters where
  cycles : (cpu instant : ℕ) → ℕ
  monotone : ∀ cpu, Monotone (cycles cpu)
  bounded : ∀ cpu instant, cycles cpu instant ≤ u64Max

/-- The handshake, where the threads are, and what they have read. -/
structure TscWorld where
  instant : ℕ
  cpu : TscThread → ℕ
  request : ℕ
  response : ℕ
  remoteCycles : ℕ
  ready : Bool
  failed : Bool
  finished : Option (Except String Unit)
  readings : TscThread → List Reading
  loaded : List ℕ

namespace TscWorld

def initial (cpu : TscThread → ℕ) : TscWorld :=
  ⟨0, cpu, 0, 0, 0, false, false, none, fun _ => [], []⟩

def read (s : TscWorld) (r : TscThread) (reading : Reading) : TscWorld :=
  { s with
    instant := reading.instant
    readings := Function.update s.readings r (s.readings r ++ [reading]) }

def act (counters : TscCounters) (r : TscThread) :
    (op : TscOp) → TscWorld → TscAns op → TscWorld → Prop
  | .pinCurrent cpu, s, (x : Except String Unit), s' =>
    match x with
    | .ok () => s' = { s with cpu := Function.update s.cpu r cpu }
    | .error _ => s' = s
  | .stamp, s, (x : Stamp), s' => ∃ instant, s.instant < instant ∧
    x = ⟨counters.cycles (s.cpu r) instant, s.cpu r⟩ ∧ s' = s.read r ⟨x, instant⟩
  | .spin, s, _, s' => s' = s
  | .loadReady, s, (x : Bool), s' => x = s.ready ∧ s' = s
  | .storeReady, s, _, s' => s' = { s with ready := true }
  | .workerFinished, s, (x : Bool), s' => x = s.finished.isSome ∧ s' = s
  | .startupElapsed, s, _, s' => s' = s
  | .storeRequest sequence, s, _, s' => s' = { s with request := sequence }
  | .loadRequest, s, (x : ℕ), s' => x = s.request ∧ s' = s
  | .storeResponse sequence, s, _, s' => s' = { s with response := sequence }
  | .loadResponse, s, (x : ℕ), s' => x = s.response ∧ s' = s
  | .storeRemoteCycles cycles, s, _, s' => s' = { s with remoteCycles := cycles }
  | .loadRemoteCycles, s, (x : ℕ), s' =>
    x = s.remoteCycles ∧ s' = { s with loaded := s.loaded ++ [x] }
  | .storeFailed, s, _, s' => s' = { s with failed := true }
  | .loadFailed, s, (x : Bool), s' => x = s.failed ∧ s' = s
  | .finish result, s, _, s' => s' = { s with finished := some result }
  | .join, s, (x : Option (Except String Unit)), s' => x.isSome ∧ x = s.finished ∧ s' = s

end TscWorld

/-- Between two calls of the threads, either may be moved to another processor. -/
def tscParties (counters : TscCounters) : Parties TscThread TscOp TscAns TscWorld where
  act := TscWorld.act counters
  env s s' := ∃ r cpu, s' = { s with cpu := Function.update s.cpu r cpu }

abbrev TscResult : TscThread → Type
  | .controller => Except String (ℤ × ℕ)
  | .worker => Unit

def tscPool (samples cpu : ℕ) : Pool TscThread TscOp TscAns TscResult
  | .controller => (estimateRemoteTscOffset samples).run
  | .worker => tscWorker samples cpu

end Snoozer
