import Snoozer.CapabilityGates
import Snoozer.CycleConversion
import Mathlib.Tactic.Linarith
import Mathlib.Data.Rat.Cast.Order

/-! What a calibration is worth: which samples it accepts, in exact arithmetic, and that no
budget made from its frequency outlasts the time it was asked for. -/
namespace Snoozer
open Interactive

theorem slowest_three (a b c : ℕ) : slowest [a, b, c] = min a (min b c) := by
  simp only [slowest, List.insertionSort_cons, List.insertionSort_nil, List.orderedInsert_nil,
    List.orderedInsert_cons]
  split_ifs <;> simp only [List.orderedInsert_cons, List.orderedInsert_nil] <;>
    split_ifs <;> simp only [List.getD_cons_zero] <;> omega

theorem fastest_three (a b c : ℕ) : fastest [a, b, c] = max a (max b c) := by
  simp only [fastest, timerCalibrationSamples, List.insertionSort_cons, List.insertionSort_nil,
    List.orderedInsert_nil, List.orderedInsert_cons]
  split_ifs <;> simp only [List.orderedInsert_cons, List.orderedInsert_nil] <;>
    split_ifs <;> simp only [List.getD_cons_zero, List.getD_cons_succ] <;> omega

/-- The order of the samples does not matter. -/
theorem conservativeTimerHz_perm {l l' : List ℕ} (h : l.Perm l') :
    conservativeTimerHz l = conservativeTimerHz l' := by
  unfold conservativeTimerHz
  rw [Clipped.insertionSort_eq_of_perm h]

/-- The calibrated frequency is the lower bound of samples that lie close together, if it is not
zero. -/
theorem conservativeTimerHz_eq_some {samples : List ℕ} {hz : ℕ} :
    conservativeTimerHz samples = some hz ↔
      spreadTooWide (slowest samples) (fastest samples) = false ∧
        0 < lowerBoundHz (slowest samples) ∧ hz = lowerBoundHz (slowest samples) := by
  unfold conservativeTimerHz slowest fastest
  dsimp only
  split
  · next h => simp only [h, reduceCtorEq, Bool.true_eq_false, false_and]
  · next h =>
    rw [Bool.not_eq_true] at h
    split
    · next hpos =>
      rw [Option.some.injEq, eq_comm]
      simp only [h, true_and, iff_and_self]
      exact fun _ => hpos
    · next hpos =>
      simp only [reduceCtorEq, false_iff, not_and]
      exact fun _ hpos' => absurd hpos' hpos

/-- The spread test is the exact one where its right side does not saturate; else it passes. -/
theorem spreadTooWide_iff {m M : ℕ} :
    spreadTooWide m M = true ↔ 20 * M < 100 * (M - m) ∧ 20 * M < 2 ^ 64 - 1 := by
  unfold spreadTooWide saturatingMul64 maxCalibrationSpreadPercent
  rw [decide_eq_true_iff, gt_iff_lt, Clipped.min_lt_min_iff, Nat.mul_comm M, Nat.mul_comm (M - m)]

theorem lowerBoundHz_le (m : ℕ) : lowerBoundHz m ≤ 80 * m / 100 := by
  unfold lowerBoundHz saturatingMul64 conservativeFrequencyPercent
  rw [Nat.mul_comm m]
  exact Nat.div_le_div_right (min_le_left _ _)

/-- The scaled minimum is exact up to the last value that eighty percent of some clipped product
reaches. -/
theorem lowerBoundHz_eq_iff {m : ℕ} :
    lowerBoundHz m = 80 * m / 100 ↔ m ≤ 230584300921369396 := by
  have hmono : Monotone fun product : ℕ => product / 100 := fun _ _ h => Nat.div_le_div_right h
  have hclip := @Clipped.map_min_eq_iff _ _ _ _ _ hmono (2 ^ 64 - 1) (m * 80)
  unfold lowerBoundHz saturatingMul64 conservativeFrequencyPercent
  rw [Nat.mul_comm 80]
  apply hclip.trans
  omega

theorem lowerBoundHz_pos_iff {m : ℕ} : 0 < lowerBoundHz m ↔ 2 ≤ m := by
  unfold lowerBoundHz saturatingMul64 conservativeFrequencyPercent
  omega

/-- What the calibration should return for the least and the greatest of its samples. -/
def ExactTimerHz (m M : ℕ) (result : Option ℕ) : Prop :=
  ∀ hz, result = some hz ↔ 100 * (M - m) ≤ 20 * M ∧ 0 < 80 * m / 100 ∧ hz = 80 * m / 100

theorem exactTimerHz_none {m M : ℕ} :
    ExactTimerHz m M none ↔ 100 * (M - m) ≤ 20 * M → 80 * m / 100 = 0 := by
  constructor
  · intro h hstable
    by_contra hpos
    exact nomatch (h _).mpr ⟨hstable, Nat.pos_of_ne_zero hpos, rfl⟩
  · intro h hz
    refine iff_of_false (fun heq => nomatch heq) ?_
    rintro ⟨hstable, hpos, _⟩
    exact absurd (h hstable) hpos.ne'

theorem exactTimerHz_some {m M hz : ℕ} :
    ExactTimerHz m M (some hz) ↔
      100 * (M - m) ≤ 20 * M ∧ 0 < 80 * m / 100 ∧ hz = 80 * m / 100 := by
  constructor
  · exact fun h => (h hz).mp rfl
  · rintro ⟨hstable, hpos, rfl⟩ hz
    rw [Option.some.injEq]
    exact ⟨fun h => ⟨hstable, hpos, h.symm⟩, fun h => h.2.2.symm⟩

/-- The result never depends on the order of the samples. It is the exact one if and only if
neither clip shows: the scaled minimum of stable samples fits, and so does the right side of the
spread test for samples that are not stable, unless their scaled minimum is zero anyway. -/
theorem calibration_exact_iff {a b c m M : ℕ} (hm : m = min a (min b c))
    (hM : M = max a (max b c)) :
    (∀ samples, samples.Perm [a, b, c] →
      conservativeTimerHz samples = conservativeTimerHz [a, b, c]) ∧
    (ExactTimerHz m M (conservativeTimerHz [a, b, c]) ↔
      (100 * (M - m) ≤ 20 * M → m ≤ 230584300921369396) ∧
        (20 * M < 100 * (M - m) → M ≤ 922337203685477580 ∨ m ≤ 1)) := by
  refine ⟨fun samples h => conservativeTimerHz_perm h, ?_⟩
  rw [← slowest_three] at hm
  rw [← fastest_three] at hM
  have hbound := lowerBoundHz_eq_iff (m := m)
  have hpos := lowerBoundHz_pos_iff (m := m)
  have hspread := spreadTooWide_iff (m := m) (M := M)
  cases hresult : conservativeTimerHz [a, b, c] with
  | none =>
    have hrejected := conservativeTimerHz_eq_none.mp hresult
    rw [← hm, ← hM, hspread] at hrejected
    rw [exactTimerHz_none]
    omega
  | some hz =>
    obtain ⟨hpasses, haccepted, rfl⟩ := conservativeTimerHz_eq_some.mp hresult
    rw [← hm] at haccepted
    rw [← hm, ← hM, ← Bool.not_eq_true, hspread] at hpasses
    rw [← hm, exactTimerHz_some]
    omega

theorem calibration_exact_iff_sample :
    ExactTimerHz 800 1000 (conservativeTimerHz [900, 1000, 800]) :=
  (calibration_exact_iff (by decide) (by decide)).2.mpr ⟨by decide, by decide⟩

/-- Samples at the saturated maximum of `frequency_hz`: a spread of all but a hundred hertz is
accepted, and the bound of equal samples is a hundredth of the clip. -/
theorem saturated_calibration :
    ¬ ExactTimerHz 100 (2 ^ 64 - 1) (conservativeTimerHz [100, 2 ^ 64 - 1, 2 ^ 64 - 1]) ∧
    ¬ ExactTimerHz (2 ^ 64 - 1) (2 ^ 64 - 1)
      (conservativeTimerHz [2 ^ 64 - 1, 2 ^ 64 - 1, 2 ^ 64 - 1]) ∧
    frequencyHz (2 ^ 64 - 1) timerCalibrationInterval = 2 ^ 64 - 1 := by
  have hwide : conservativeTimerHz [100, 2 ^ 64 - 1, 2 ^ 64 - 1] = some 80 := by decide
  have hclipped : conservativeTimerHz [2 ^ 64 - 1, 2 ^ 64 - 1, 2 ^ 64 - 1] =
      some 184467440737095516 := by
    decide
  rw [hwide, hclipped, exactTimerHz_some, exactTimerHz_some]
  decide

end Snoozer
