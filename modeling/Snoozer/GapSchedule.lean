import Snoozer.XorShift

/-! The bursty gap schedule of `benches/support/pure.rs`: an xorshift64* generator whose state
picks a gap by weight. Durations are nanoseconds. -/
namespace Snoozer.WakeLatency

structure GapSchedule where
  state : BitVec 64
  deriving DecidableEq, Repr

namespace GapSchedule

def new (seed : BitVec 64) : GapSchedule := ⟨seed⟩

/-- The three xor-shifts of `next`. -/
def advance (state : BitVec 64) : BitVec 64 :=
  let state := state ^^^ (state >>> 12)
  let state := state ^^^ (state <<< 25)
  state ^^^ (state >>> 27)

def bucket (state : BitVec 64) : ℕ := (state * 0x2545f4914f6cdd1d#64).toNat % 100

def microseconds (bucket : ℕ) : ℕ :=
  if bucket ≤ 29 then 0
  else if bucket ≤ 44 then 1
  else if bucket ≤ 56 then 5
  else if bucket ≤ 66 then 10
  else if bucket ≤ 76 then 25
  else if bucket ≤ 84 then 50
  else if bucket ≤ 91 then 100
  else if bucket ≤ 96 then 250
  else 1000

/-- `Duration::from_micros`. -/
def fromMicros (micros : ℕ) : ℕ := micros * 1000

/-- The gap and the schedule after it. -/
def next (schedule : GapSchedule) : ℕ × GapSchedule :=
  let state := advance schedule.state
  (fromMicros (microseconds (bucket state)), ⟨state⟩)

/-- The schedule after a number of calls of `next`. -/
def after (schedule : GapSchedule) : ℕ → GapSchedule
  | 0 => schedule
  | calls + 1 => (schedule.after calls).next.2

/-- The gaps of the first calls. -/
def gaps (schedule : GapSchedule) (calls : ℕ) : List ℕ :=
  (List.range calls).map fun call => (schedule.after call).next.1

@[simp] theorem next_state (schedule : GapSchedule) :
    schedule.next.2.state = advance schedule.state := rfl

theorem microseconds_le (bucket : ℕ) : microseconds bucket ≤ 1000 := by
  unfold microseconds
  split_ifs <;> omega

/-- No gap is longer than a millisecond. -/
theorem gaps_bounded (schedule : GapSchedule) {calls gap : ℕ} (h : gap ∈ schedule.gaps calls) :
    gap ≤ fromMicros 1000 := by
  obtain ⟨call, -, rfl⟩ := List.mem_map.mp h
  have hle := microseconds_le (bucket (advance (schedule.after call).state))
  exact Nat.mul_le_mul_right 1000 hle

example : (new 0x5a179d3ce8214b6f#64).gaps 5 = [25000, 10000, 0, 50000, 0] := by decide

theorem advance_eq (state : BitVec 64) :
    advance state = XorShift.right 27 (XorShift.left 25 (XorShift.right 12 state)) := rfl

theorem advance_injective : Function.Injective advance := by
  have hfirst : Function.Injective (XorShift.right 12 : BitVec 64 → _) :=
    XorShift.right_injective (by decide)
  have hsecond : Function.Injective (XorShift.left 25 : BitVec 64 → _) :=
    XorShift.left_injective (by decide)
  have hthird : Function.Injective (XorShift.right 27 : BitVec 64 → _) :=
    XorShift.right_injective (by decide)
  exact hthird.comp (hsecond.comp hfirst)

theorem advance_bijective : Function.Bijective advance :=
  Finite.injective_iff_bijective.mp advance_injective

theorem advance_zero : advance 0#64 = 0#64 := by decide

theorem after_state (schedule : GapSchedule) (calls : ℕ) :
    (schedule.after calls).state = advance^[calls] schedule.state := by
  induction calls with
  | zero => rfl
  | succ calls ih => rw [after, next_state, ih, Function.iterate_succ_apply']

/-- Schedules with different states stay apart. -/
theorem after_state_injective (calls : ℕ) :
    Function.Injective fun seed => ((new seed).after calls).state := by
  intro seed seed' h
  simp only [after_state] at h
  exact advance_injective.iterate calls h

theorem after_zero_state (calls : ℕ) : ((new 0#64).after calls).state = 0#64 := by
  rw [after_state]
  exact Function.iterate_fixed advance_zero calls

end GapSchedule

open GapSchedule

/-- The state update is a bijection. From a nonzero seed the state never becomes zero, every
state sequence comes back to its seed and goes round from there, and different seeds are in
different states after every number of calls. -/
theorem gap_schedule_never_collapses :
    Function.Bijective advance ∧
    (∀ schedule : GapSchedule, schedule.next.2.state = advance schedule.state) ∧
    (∀ seed, seed ≠ 0#64 → ∀ calls, ((new seed).after calls).state ≠ 0#64) ∧
    (∀ seed, ∃ period, 0 < period ∧ ∀ calls,
      ((new seed).after (calls + period)).state = ((new seed).after calls).state) ∧
    ∀ seed seed', seed ≠ seed' → ∀ calls,
      ((new seed).after calls).state ≠ ((new seed').after calls).state := by
  refine ⟨advance_bijective, next_state, ?_, ?_, ?_⟩
  · intro seed hseed calls hzero
    rw [← after_zero_state calls] at hzero
    exact hseed (after_state_injective calls hzero)
  · intro seed
    obtain ⟨period, hpos, hperiod⟩ := XorShift.exists_period advance_injective seed
    refine ⟨period, hpos, fun calls => ?_⟩
    rw [after_state, after_state]
    exact hperiod calls
  · intro seed seed' hne calls heq
    exact hne (after_state_injective calls heq)

theorem gap_schedule_never_collapses_sample :
    ((new 0x5a179d3ce8214b6f#64).after 10000).state ≠ 0#64 ∧
    ((new 1#64).after 10000).state ≠ ((new 2#64).after 10000).state :=
  ⟨gap_schedule_never_collapses.2.2.1 _ (by decide) 10000,
    gap_schedule_never_collapses.2.2.2.2 _ _ (by decide) 10000⟩

end Snoozer.WakeLatency
