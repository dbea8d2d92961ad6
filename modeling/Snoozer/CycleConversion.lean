import Snoozer.ClippedArithmetic
import Snoozer.WaitStrategy

/-! The cycle budgets of `src/strategy.rs` against exact arithmetic: neither the saturating
product nor the cached safety budget is ever seen. -/
namespace Snoozer

/-- Cycles of a timer in a duration, in exact arithmetic. -/
def exactCycles (duration timerHz : ℕ) : ℕ := duration * timerHz / nanosPerSecond

/-- The product of `duration_to_cycles` saturates only far above every clamp. -/
theorem clampNat_saturated {high : ℕ} (hhigh : high ≤ 2 ^ 64 - 1) (duration timerHz : ℕ) :
    clampNat 1 high (saturatingMul128 duration timerHz / nanosPerSecond) =
      clampNat 1 high (exactCycles duration timerHz) := by
  have hmono : Monotone fun product : ℕ => product / nanosPerSecond :=
    fun _ _ h => Nat.div_le_div_right h
  have hcap : high ≤ (2 ^ 128 - 1) / nanosPerSecond := by
    apply hhigh.trans
    decide
  have hclip := Clipped.min_map_min hmono hcap (duration * timerHz)
  unfold clampNat saturatingMul128 exactCycles
  rw [hclip]

theorem durationToCycles_exact (duration timerHz : ℕ) :
    durationToCycles duration timerHz = clampNat 1 (2 ^ 32 - 1) (exactCycles duration timerHz) :=
  clampNat_saturated (by decide) duration timerHz

theorem durationToCyclesU64_exact (duration timerHz : ℕ) :
    durationToCyclesU64 duration timerHz =
      clampNat 1 (2 ^ 64 - 1) (exactCycles duration timerHz) :=
  clampNat_saturated le_rfl duration timerHz

theorem clampNat_mono (low high : ℕ) : Monotone (clampNat low high) :=
  fun _ _ h => max_le_max_left low (min_le_min_left high h)

theorem le_clampNat (low high n : ℕ) : low ≤ clampNat low high n := le_max_left _ _

/-- A clamped value lies on the floor or is not above the value. -/
theorem clampNat_eq_or_le (low high n : ℕ) :
    clampNat low high n = low ∨ clampNat low high n ≤ n := by
  unfold clampNat
  rcases le_total low (min high n) with h | h
  · right
    rw [max_eq_right h]
    exact min_le_right _ _
  · exact Or.inl (max_eq_left h)

/-- A narrow clamp is the narrow clip of a wide one. -/
theorem clampNat_of_le {low high high' : ℕ} (hlow : low ≤ high) (hhigh : high ≤ high') (n : ℕ) :
    clampNat low high n = min high (clampNat low high' n) := by
  unfold clampNat
  rw [min_max_distrib_left, min_eq_right hlow, ← min_assoc, min_eq_left hhigh]

theorem exactCycles_mono {d d' hz hz' : ℕ} (hd : d ≤ d') (hhz : hz ≤ hz') :
    exactCycles d hz ≤ exactCycles d' hz' := Nat.div_le_div_right (Nat.mul_le_mul hd hhz)

theorem durationToCycles_mono {d d' hz hz' : ℕ} (hd : d ≤ d') (hhz : hz ≤ hz') :
    durationToCycles d hz ≤ durationToCycles d' hz' := by
  rw [durationToCycles_exact, durationToCycles_exact]
  exact clampNat_mono _ _ (exactCycles_mono hd hhz)

theorem durationToCyclesU64_mono {d d' hz hz' : ℕ} (hd : d ≤ d') (hhz : hz ≤ hz') :
    durationToCyclesU64 d hz ≤ durationToCyclesU64 d' hz' := by
  rw [durationToCyclesU64_exact, durationToCyclesU64_exact]
  exact clampNat_mono _ _ (exactCycles_mono hd hhz)

/-- The cached budget is what the conversion gives for the safety timeout. -/
theorem mwaitxTimeoutCycles_eq (timerHz remaining : ℕ) :
    mwaitxTimeoutCycles (AmdConfig.new timerHz) remaining =
      durationToCycles (min remaining mwaitxSafetyTimeout) timerHz := by
  unfold mwaitxTimeoutCycles
  split
  · next h =>
    rw [min_eq_left h.le]
    rfl
  · next h =>
    rw [min_eq_right (not_lt.mp h)]
    rfl

theorem umwaitTimeoutCycles_eq (timerHz remaining : ℕ) :
    umwaitTimeoutCycles (IntelConfig.new timerHz) remaining =
      durationToCyclesU64 (min remaining umwaitSafetyTimeout) timerHz := by
  unfold umwaitTimeoutCycles
  split
  · next h =>
    rw [min_eq_left h.le]
    rfl
  · next h =>
    rw [min_eq_right (not_lt.mp h)]
    rfl

/-- The AMD budget is the Intel budget as far as 32 bits reach. -/
theorem durationToCycles_eq_min (duration timerHz : ℕ) :
    durationToCycles duration timerHz =
      min (2 ^ 32 - 1) (durationToCyclesU64 duration timerHz) := by
  rw [durationToCycles_exact, durationToCyclesU64_exact]
  exact clampNat_of_le (by decide) (by decide) _

/-- Both conversions are exact up to their clamps and monotone, both budgets are the conversion
of what remains but at most a millisecond, and the back ends agree below 32 bits. -/
theorem cycle_conversion_exact :
    (∀ duration timerHz, durationToCycles duration timerHz =
      clampNat 1 (2 ^ 32 - 1) (duration * timerHz / 10 ^ 9)) ∧
    (∀ duration timerHz, durationToCyclesU64 duration timerHz =
      clampNat 1 (2 ^ 64 - 1) (duration * timerHz / 10 ^ 9)) ∧
    (∀ timerHz, Monotone fun duration => durationToCycles duration timerHz) ∧
    (∀ duration, Monotone fun timerHz => durationToCycles duration timerHz) ∧
    (∀ timerHz, Monotone fun duration => durationToCyclesU64 duration timerHz) ∧
    (∀ duration, Monotone fun timerHz => durationToCyclesU64 duration timerHz) ∧
    ∀ timerHz remaining,
      mwaitxTimeoutCycles (AmdConfig.new timerHz) remaining =
        durationToCycles (min remaining 1000000) timerHz ∧
      umwaitTimeoutCycles (IntelConfig.new timerHz) remaining =
        durationToCyclesU64 (min remaining 1000000) timerHz ∧
      (umwaitTimeoutCycles (IntelConfig.new timerHz) remaining < 2 ^ 32 →
        mwaitxTimeoutCycles (AmdConfig.new timerHz) remaining =
          umwaitTimeoutCycles (IntelConfig.new timerHz) remaining) := by
  refine ⟨durationToCycles_exact, durationToCyclesU64_exact, ?_, ?_, ?_, ?_, ?_⟩
  · exact fun timerHz _ _ h => durationToCycles_mono h le_rfl
  · exact fun duration _ _ h => durationToCycles_mono le_rfl h
  · exact fun timerHz _ _ h => durationToCyclesU64_mono h le_rfl
  · exact fun duration _ _ h => durationToCyclesU64_mono le_rfl h
  · intro timerHz remaining
    refine ⟨mwaitxTimeoutCycles_eq timerHz remaining, umwaitTimeoutCycles_eq timerHz remaining, ?_⟩
    intro hsmall
    rw [umwaitTimeoutCycles_eq] at hsmall
    rw [mwaitxTimeoutCycles_eq, umwaitTimeoutCycles_eq]
    change durationToCycles (min remaining umwaitSafetyTimeout) timerHz = _
    rw [durationToCycles_eq_min]
    exact min_eq_right (Nat.le_sub_one_of_lt hsmall)

end Snoozer
