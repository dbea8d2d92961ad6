import Mathlib.Order.MinMax
import Mathlib.Data.List.Sort

/-! Arithmetic that clips its results at a largest value, against arithmetic that does not. A
monotone map turns a clip before it into a clip after it. -/
namespace Clipped

variable {α β : Type} [LinearOrder α] [LinearOrder β]

/-- A clip makes no difference below a bound that the clipped values reach. -/
theorem min_map_min {f : α → β} (hf : Monotone f) {cap : α} {high : β} (h : high ≤ f cap)
    (x : α) : min high (f (min x cap)) = min high (f x) := by
  rw [hf.map_min, min_comm (f x), ← min_assoc, min_eq_left h]

/-- A clipped argument gives the value of the argument exactly when the value is not above that
of the cap. -/
theorem map_min_eq_iff {f : α → β} (hf : Monotone f) {cap x : α} :
    f (min x cap) = f x ↔ f x ≤ f cap := by
  rw [hf.map_min, min_eq_left_iff]

/-- Two clipped values compare as the values do, where the smaller one is not clipped. -/
theorem min_lt_min_iff {cap x y : α} : min x cap < min y cap ↔ x < y ∧ x < cap := by
  rw [lt_min_iff, min_lt_iff, min_lt_iff]
  constructor
  · rintro ⟨hxy | hcap, hx | hirrefl⟩
    · exact ⟨hxy, hx⟩
    · exact absurd hirrefl (lt_irrefl cap)
    · exact ⟨hx.trans hcap, hx⟩
    · exact absurd hirrefl (lt_irrefl cap)
  · rintro ⟨hxy, hx⟩
    exact ⟨Or.inl hxy, Or.inl hx⟩

theorem insertionSort_eq_of_perm {l l' : List α} (h : l.Perm l') :
    l.insertionSort (· ≤ ·) = l'.insertionSort (· ≤ ·) := by
  apply List.Perm.eq_of_pairwise' (r := (· ≤ ·))
  · exact List.pairwise_insertionSort _ l
  · exact List.pairwise_insertionSort _ l'
  · exact (List.perm_insertionSort _ l).trans (h.trans (List.perm_insertionSort _ l').symm)

end Clipped
