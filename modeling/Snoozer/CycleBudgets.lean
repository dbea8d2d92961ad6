import Snoozer.TimerCalibration
import Mathlib.Data.Nat.Cast.Order.Field
import Mathlib.Tactic.Ring

/-! No budget outlasts its time: a timer of any positive rational frequency is observed by a
calibration, and the budgets made from the result are held against that frequency. -/
namespace Snoozer
open Interactive

/-- What an observation has read so far. -/
inductive Observing where
  | idle
  | started (began : ℕ)
  | counting (began first : ℕ) (firstAux : BitVec 32)
  | counted (began first : ℕ) (firstAux : BitVec 32) (last : ℕ) (lastAux : BitVec 32)
  deriving DecidableEq, Repr

/-- The ticks between the two counter reads of an accepted observation fit into its time, at
`F` ticks a second. -/
def Fits (F : ℚ) (first : ℕ) (firstAux : BitVec 32) (last : ℕ) (lastAux : BitVec 32)
    (elapsedNanos : ℕ) : Prop :=
  firstAux = lastAux → first < last → elapsedNanos ≠ 0 →
    ((last - first : ℕ) : ℚ) * 10 ^ 9 ≤ F * elapsedNanos

namespace Observing

/-- The clock and the counter answer anything, as long as the observation fits. -/
def act (F : ℚ) : (op : PreflightOp) → Observing → PreflightAns op → Observing → Prop
  | .instantNow, .idle, (x : ℕ), φ => φ = .started x
  | .instantNow, .counted began first firstAux last lastAux, (x : ℕ), φ =>
    Fits F first firstAux last lastAux (x - began) ∧ φ = .idle
  | .rdtscp, .started began, (high, low, aux), φ => φ = .counting began (tscFromHalves high low) aux
  | .rdtscp, .counting began first firstAux, (high, low, aux), φ =>
    φ = .counted began first firstAux (tscFromHalves high low) aux
  | _, φ₀, _, φ => φ = φ₀

end Observing

def observing (F : ℚ) : Machine PreflightOp PreflightAns Observing where
  act := Observing.act F
  env _ _ := False

theorem observing_closed (F : ℚ) : Closed (observing F) := fun _ _ h => h

/-- A sampled frequency is a positive one that the timer has, unless it is the floor of one. -/
def Sampled (F : ℚ) (hz : ℕ) : Prop := 1 ≤ hz ∧ (hz = 1 ∨ (hz : ℚ) ≤ F)

variable {F : ℚ}

/-- A rate whose ticks came from a counter of this frequency is near it. -/
theorem frequencyHz_sampled {ticks elapsedNanos : ℕ} (helapsed : elapsedNanos ≠ 0)
    (h : (ticks : ℚ) * 10 ^ 9 ≤ F * elapsedNanos) : Sampled F (frequencyHz ticks elapsedNanos) := by
  have hpos : (0 : ℚ) < elapsedNanos := by exact_mod_cast Nat.pos_of_ne_zero helapsed
  have hquotient : ((ticks * 10 ^ 9 / elapsedNanos : ℕ) : ℚ) ≤ F := by
    calc ((ticks * 10 ^ 9 / elapsedNanos : ℕ) : ℚ)
        ≤ ((ticks * 10 ^ 9 : ℕ) : ℚ) / elapsedNanos := Nat.cast_div_le
      _ = (ticks : ℚ) * 10 ^ 9 / elapsedNanos := by push_cast; rfl
      _ ≤ F := (div_le_iff₀ hpos).mpr h
  refine ⟨le_max_right _ _, ?_⟩
  unfold frequencyHz
  rcases max_choice (min (saturatingMul128 ticks 1000000000 / max elapsedNanos 1) (2 ^ 64 - 1)) 1
    with hmax | hmax
  · right
    rw [hmax]
    refine le_trans ?_ hquotient
    have hone : max elapsedNanos 1 = elapsedNanos := max_eq_left (Nat.pos_of_ne_zero helapsed)
    rw [hone]
    exact_mod_cast (min_le_left _ _).trans (Nat.div_le_div_right (min_le_left _ _))
  · exact Or.inl hmax

/-- The frequency of an observation that fits is near the true one. -/
theorem tscFrequencyFromObservation_sampled {first last elapsedNanos hz : ℕ}
    {firstAux lastAux : BitVec 32} (hfits : Fits F first firstAux last lastAux elapsedNanos)
    (h : tscFrequencyFromObservation first firstAux last lastAux elapsedNanos = some hz) :
    Sampled F hz := by
  unfold tscFrequencyFromObservation at h
  split at h
  · cases h
  · next haccepted =>
    push Not at haccepted
    obtain ⟨haux, hlast, helapsed⟩ := haccepted
    cases h
    exact frequencyHz_sampled helapsed (hfits haux hlast helapsed)

/-- Nothing is asked of the calls on the way. -/
def Anywhere (_ : Option PreflightOp) (_ : Observing) : Prop := True

/-- Every sample of the frequency is near the true one. -/
theorem wp_sampleTscFrequencyOnce : wp (observing F) Anywhere sampleTscFrequencyOnce
    (fun sample φ => φ = .idle ∧ ∀ hz, sample = some hz → Sampled F hz) .idle := by
  have hM := observing_closed F
  apply hM.wp_call trivial
  rintro started _ rfl
  apply hM.wp_call trivial
  rintro ⟨high, low, firstAux⟩ _ rfl
  apply wp_loop (fun φ => φ = .counting started (tscFromHalves high low) firstAux) (hM.stable _)
    (fun _ _ => trivial) ?_ rfl
  rintro _ rfl
  apply hM.wp_call trivial
  rintro now _ rfl
  rw [Prog.ret_bind]
  split
  · apply hM.wp_call trivial
    rintro _ _ rfl
    exact hM.wp_ret trivial rfl
  · apply hM.wp_ret trivial
    apply hM.wp_call trivial
    rintro ⟨high', low', lastAux⟩ _ rfl
    apply hM.wp_call trivial
    rintro finished _ ⟨hfits, rfl⟩
    apply hM.wp_ret trivial
    exact ⟨rfl, fun hz h => tscFrequencyFromObservation_sampled hfits h⟩

/-- So are all the collected ones, and there are as many as were asked for. -/
theorem wp_collectTscFrequencies (attempts : ℕ) (samples : List ℕ)
    (hsamples : ∀ hz ∈ samples, Sampled F hz) :
    wp (observing F) Anywhere (collectTscFrequencies sampleTscFrequencyOnce attempts samples)
      (fun collected _ => ∀ l, collected = some l →
        l.length = timerCalibrationSamples ∧ ∀ hz ∈ l, Sampled F hz) .idle := by
  have hM := observing_closed F
  induction attempts generalizing samples with
  | zero => exact hM.wp_ret trivial fun l h => nomatch h
  | succ attempts ih =>
    apply wp_bind
    apply wp_mono wp_sampleTscFrequencyOnce
    rintro sample _ ⟨rfl, hsample⟩
    cases sample with
    | none => exact ih samples hsamples
    | some hz =>
      have hall : ∀ hz' ∈ samples ++ [hz], Sampled F hz' := by
        intro hz' hmem
        rcases List.mem_append.mp hmem with hmem | hmem
        · exact hsamples hz' hmem
        · rw [List.mem_singleton.mp hmem]
          exact hsample hz rfl
      dsimp only
      split
      · next hlength =>
        apply hM.wp_ret trivial
        rintro _ ⟨⟩
        exact ⟨hlength, hall⟩
      · exact ih _ hall

/-- A bound that comes out positive is four fifths of a frequency that the timer has: the floor
of one hertz gives zero. -/
theorem conservativeTimerHz_le {samples : List ℕ} {timerHz : ℕ}
    (hlength : samples.length = timerCalibrationSamples) (hall : ∀ hz ∈ samples, Sampled F hz)
    (h : conservativeTimerHz samples = some timerHz) :
    0 < timerHz ∧ (timerHz : ℚ) ≤ 8 / 10 * F := by
  obtain ⟨-, hpos, rfl⟩ := conservativeTimerHz_eq_some.mp h
  refine ⟨hpos, ?_⟩
  have hmem : slowest samples ∈ samples := by
    rw [← List.mem_insertionSort (· ≤ ·)]
    have hnonempty : 0 < (samples.insertionSort (· ≤ ·)).length := by
      rw [List.length_insertionSort, hlength]
      decide
    rw [slowest, List.getD_eq_getElem?_getD, List.getElem?_eq_getElem hnonempty]
    exact List.getElem_mem hnonempty
  have htwo : 2 ≤ slowest samples := lowerBoundHz_pos_iff.mp hpos
  have hslowest : (slowest samples : ℚ) ≤ F := by
    rcases (hall _ hmem).2 with hone | hF
    · omega
    · exact hF
  have hbound : ((lowerBoundHz (slowest samples) : ℕ) : ℚ) ≤ 8 / 10 * slowest samples := by
    calc ((lowerBoundHz (slowest samples) : ℕ) : ℚ)
        ≤ ((80 * slowest samples / 100 : ℕ) : ℚ) := by exact_mod_cast lowerBoundHz_le _
      _ ≤ ((80 * slowest samples : ℕ) : ℚ) / (100 : ℕ) := Nat.cast_div_le
      _ = 8 / 10 * slowest samples := by push_cast; ring
  linarith

def IsCpuid (op : PreflightOp) : Prop := ∃ leaf subleaf, op = .cpuid leaf subleaf

theorem makes_cpuid (leaf : BitVec 32) : (cpuid leaf).Makes IsCpuid :=
  ⟨⟨leaf, 0, rfl⟩, fun _ => trivial⟩

theorem makes_readLeaf (available : Bool) (leaf : BitVec 32) :
    (readLeaf available leaf).Makes IsCpuid :=
  .ite ((makes_cpuid leaf).bind fun _ => trivial) trivial

/-- Detection reads no clock and no counter. -/
theorem wp_redetection (backend : HardwareBackend) : wp (observing F) Anywhere
    (redetection backend) (fun _ φ => φ = .idle) .idle := by
  have hmakes : (redetection backend).Makes IsCpuid := by
    cases backend with
    | amdMwaitx =>
      have hdetect : Amd.detectCapabilities.Makes IsCpuid :=
        (makes_cpuid _).bind fun _ => (makes_cpuid _).bind fun _ =>
          (makes_readLeaf _ _).bind fun _ => (makes_readLeaf _ _).bind fun _ => trivial
      exact hdetect.bind fun _ => trivial
    | intelUmwait =>
      have hdetect : Intel.detectCapabilities.Makes IsCpuid :=
        (makes_cpuid _).bind fun _ => (makes_readLeaf _ _).bind fun _ =>
          (makes_cpuid _).bind fun _ => (makes_readLeaf _ _).bind fun _ =>
            (makes_readLeaf _ _).bind fun _ => trivial
      exact hdetect.bind fun _ => trivial
  apply (observing_closed F).wp_keeps (P := fun φ => φ = .idle) (fun _ _ _ => trivial)
    (fun _ => trivial) ?_ hmakes rfl
  rintro _ _ _ _ ⟨leaf, subleaf, rfl⟩ rfl rfl
  rfl

/-- In every calibration whose observations fit a timer of `F` hertz. -/
theorem calibration_le (backend : HardwareBackend) {timerHz : ℕ} {φ : Observing}
    (hr : Reach (observing F) (vendorCalibration backend, .idle) (.ret (some timerHz), φ)) :
    0 < timerHz ∧ (timerHz : ℚ) ≤ 8 / 10 * F := by
  have hwp : wp (observing F) Anywhere (vendorCalibration backend)
      (fun result _ => ∀ hz, result = some hz → 0 < hz ∧ (hz : ℚ) ≤ 8 / 10 * F) .idle := by
    rw [vendorCalibration_eq]
    apply wp_bind
    apply wp_mono (wp_redetection backend)
    rintro usable _ rfl
    cases usable with
    | false => exact (observing_closed F).wp_ret trivial fun hz h => nomatch h
    | true =>
      apply wp_bind
      apply wp_mono (wp_collectTscFrequencies timerCalibrationAttempts [] fun _ h => nomatch h)
      intro collected φ hcollected
      apply (observing_closed F).wp_ret trivial
      intro hz hresult
      obtain ⟨samples, rfl, hsome⟩ := Option.bind_eq_some_iff.mp hresult
      obtain ⟨hlength, hall⟩ := hcollected samples rfl
      exact conservativeTimerHz_le hlength hall hsome
  exact (hwp _ _ hr).2 _ rfl timerHz rfl

/-- A budget that is not the floor lasts at most four fifths of the time it was made for. -/
def WithinTime (F : ℚ) (cycles remaining : ℕ) : Prop :=
  cycles = 1 ∨ (cycles : ℚ) / F ≤ 8 / 10 * (min remaining 1000000 : ℕ) / 10 ^ 9

/-- A clamped number of cycles does not take longer than the remaining time. -/
theorem withinTime_of_clampNat {timerHz high remaining cycles : ℕ} (hF : 0 < F)
    (hhz : (timerHz : ℚ) ≤ 8 / 10 * F)
    (hcycles : cycles = clampNat 1 high (exactCycles (min remaining 1000000) timerHz)) :
    WithinTime F cycles remaining := by
  subst hcycles
  apply (clampNat_eq_or_le 1 high _).imp id
  intro hle
  generalize min remaining 1000000 = time at *
  rw [div_le_iff₀ hF]
  calc ((clampNat 1 high (exactCycles time timerHz) : ℕ) : ℚ)
      ≤ ((time * timerHz / nanosPerSecond : ℕ) : ℚ) := by exact_mod_cast hle
    _ ≤ ((time * timerHz : ℕ) : ℚ) / (nanosPerSecond : ℕ) := Nat.cast_div_le
    _ = (time : ℚ) * timerHz / 10 ^ 9 := by
      rw [Nat.cast_mul, nanosPerSecond]
      norm_num
    _ ≤ (time : ℚ) * (8 / 10 * F) / 10 ^ 9 := by gcongr
    _ = 8 / 10 * time / 10 ^ 9 * F := by ring

/-- `intel::split_tsc_deadline`. -/
def splitTscDeadline (deadline : ℕ) : BitVec 32 × BitVec 32 :=
  (BitVec.ofNat 32 deadline, BitVec.ofNat 32 (deadline >>> 32))

theorem tscFromHalves_splitTscDeadline {deadline : ℕ} (h : deadline < 2 ^ 64) :
    tscFromHalves (splitTscDeadline deadline).2 (splitTscDeadline deadline).1 = deadline := by
  simp only [tscFromHalves, splitTscDeadline, BitVec.toNat_ofNat, Nat.shiftRight_eq_div_pow]
  omega

/-- The deadline of a budget is the budget after the counter read, or the last value there is. -/
theorem umwaitDeadline_halves {cycles deadline : ℕ} (hcycles : 1 ≤ cycles)
    {t : List (Event (WaitOp ℕ) (WaitAns ℕ))}
    (hr : Reach (traceMachine (WaitOp ℕ) (WaitAns ℕ)) (umwaitDeadline cycles, [])
      (.ret deadline, t)) :
    ∃ now : ℕ, t = [⟨.readTscOrdered, now⟩] ∧
      tscFromHalves (splitTscDeadline deadline).2 (splitTscDeadline deadline).1 =
        min (now + cycles) (2 ^ 64 - 1) := by
  have hM : Closed (traceMachine (WaitOp ℕ) (WaitAns ℕ)) := traceMachine_closed
  have hwp : wp (traceMachine (WaitOp ℕ) (WaitAns ℕ)) (fun _ _ => True) (umwaitDeadline cycles)
      (fun deadline t => ∃ now : ℕ, t = [⟨.readTscOrdered, now⟩] ∧
        deadline = min (now + cycles) (2 ^ 64 - 1)) [] := by
    apply hM.wp_call trivial
    rintro now _ rfl
    apply hM.wp_ret trivial
    exact ⟨now, rfl, by rw [saturatingAdd64, max_eq_left hcycles]⟩
  obtain ⟨now, ht, hdeadline⟩ := (hwp _ _ hr).2 _ rfl
  refine ⟨now, ht, ?_⟩
  rw [hdeadline]
  apply tscFromHalves_splitTscDeadline
  exact lt_of_le_of_lt (min_le_right _ _) (by decide)

/-- A frequency that any calibration yields is positive and at most four fifths of the timer's;
every budget made from it is at least one cycle, at most the safety budget, and, unless it is one
cycle, over within four fifths of what remains and of a millisecond; and UMWAIT is given the end
of the budget. -/
theorem budgets_never_oversleep {F : ℚ} (hF : 0 < F) (backend : HardwareBackend) {timerHz : ℕ}
    {φ : Observing}
    (hr : Reach (observing F) (vendorCalibration backend, .idle) (.ret (some timerHz), φ)) :
    (0 < timerHz ∧ (timerHz : ℚ) ≤ 8 / 10 * F) ∧
    (∀ remaining cycles, cycles = mwaitxTimeoutCycles (AmdConfig.new timerHz) remaining →
      1 ≤ cycles ∧ cycles ≤ (AmdConfig.new timerHz).safetyTimeoutCycles ∧
        WithinTime F cycles remaining) ∧
    ∀ remaining cycles, cycles = umwaitTimeoutCycles (IntelConfig.new timerHz) remaining →
      1 ≤ cycles ∧ cycles ≤ (IntelConfig.new timerHz).safetyTimeoutCycles ∧
        WithinTime F cycles remaining ∧
        ∀ deadline t, Reach (traceMachine (WaitOp ℕ) (WaitAns ℕ)) (umwaitDeadline cycles, [])
            (.ret deadline, t) →
          ∃ now : ℕ, t = [⟨.readTscOrdered, now⟩] ∧
            tscFromHalves (splitTscDeadline deadline).2 (splitTscDeadline deadline).1 =
              min (now + cycles) (2 ^ 64 - 1) := by
  have hhz := calibration_le backend hr
  refine ⟨hhz, ?_, ?_⟩
  · rintro remaining _ rfl
    rw [mwaitxTimeoutCycles_eq]
    refine ⟨le_clampNat _ _ _, durationToCycles_mono (min_le_right _ _) le_rfl, ?_⟩
    exact withinTime_of_clampNat hF hhz.2 (durationToCycles_exact _ _)
  · rintro remaining _ rfl
    rw [umwaitTimeoutCycles_eq]
    have hone : 1 ≤ durationToCyclesU64 (min remaining umwaitSafetyTimeout) timerHz :=
      le_clampNat _ _ _
    refine ⟨hone, durationToCyclesU64_mono (min_le_right _ _) le_rfl, ?_, ?_⟩
    · exact withinTime_of_clampNat hF hhz.2 (durationToCyclesU64_exact _ _)
    · exact fun deadline t hdeadline => umwaitDeadline_halves hone hdeadline

/-- A timer that counts nanoseconds. -/
def steadyTimer : Handler PreflightOp PreflightAns Observing
  | .instantNow, .idle => ((0 : ℕ), .started 0)
  | .instantNow, .counted began first _ last _ => (began + (last - first), .idle)
  | .instantNow, φ => ((2000000 : ℕ), φ)
  | .rdtscp, .started began => ((0, 0, 0), .counting began 0 0)
  | .rdtscp, .counting began first firstAux =>
    ((0, 2000000, 0), .counted began first firstAux 2000000 0)
  | .rdtscp, φ => ((0, 0, 0), φ)
  | .cpuid leaf subleaf, φ => (sampleCpu leaf subleaf, φ)
  | .prctlGetTsc, φ => ((0, 1), φ)
  | .spinLoop, φ => ((), φ)
  | .wait op, φ => ((default : WaitAns ℕ op), φ)
  | .startTrial _, φ => ((), φ)
  | .receive, φ => ((none : Option ℕ), φ)

/-- The sample's timer is one the observing machine allows. -/
theorem steadyTimer_acts (op : PreflightOp) (φ : Observing) :
    (observing (10 ^ 9)).act op φ (steadyTimer op φ).1 (steadyTimer op φ).2 := by
  cases op with
  | instantNow =>
    cases φ with
    | counted began first firstAux last lastAux =>
      refine ⟨fun _ _ _ => ?_, rfl⟩
      rw [steadyTimer, Nat.add_sub_cancel_left, mul_comm]
    | _ => rfl
  | rdtscp =>
    cases φ with
    | _ => rfl
  | _ => rfl

theorem steadyCalibration : ∃ φ, Reach (observing (10 ^ 9))
    (vendorCalibration .amdMwaitx, .idle) (.ret (some 800000000), φ) := by
  have hrun : ((vendorCalibration .amdMwaitx).run steadyTimer 100 .idle).map Prod.fst =
      some (some 800000000) := by
    decide +kernel
  obtain ⟨⟨r, φ⟩, hrun, rfl⟩ := Option.map_eq_some_iff.mp hrun
  exact ⟨φ, reach_of_run steadyTimer_acts _ _ _ hrun⟩

/-- Ten microseconds are eight thousand cycles, which last eight of them. -/
theorem budgets_never_oversleep_sample :
    mwaitxTimeoutCycles (AmdConfig.new 800000000) 10000 = 8000 ∧
      WithinTime (10 ^ 9) 8000 10000 := by
  obtain ⟨φ, hr⟩ := steadyCalibration
  obtain ⟨_, hamd, _⟩ := budgets_never_oversleep (by norm_num) .amdMwaitx hr
  exact ⟨by decide, (hamd 10000 8000 (by decide)).2.2⟩

end Snoozer
