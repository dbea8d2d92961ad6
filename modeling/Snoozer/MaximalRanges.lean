import Mathlib.Data.Finset.Sort
import Mathlib.Order.Interval.Finset.Nat

/-! Finite sets of naturals as ascending lists of ranges with gaps between them. Every set has
exactly one such list. -/
namespace MaximalRanges

/-- The number lies in one of the ranges, which are given by their first and last elements. -/
def Covers (ranges : List (ℕ × ℕ)) (n : ℕ) : Prop := ∃ r ∈ ranges, r.1 ≤ n ∧ n ≤ r.2

/-- The ranges ascend, cannot be joined, and make up the set. -/
structure Describes (ranges : List (ℕ × ℕ)) (s : Finset ℕ) : Prop where
  ordered : ∀ r ∈ ranges, r.1 ≤ r.2
  apart : ranges.Pairwise fun r r' => r.2 + 1 < r'.1
  covers : ∀ n, n ∈ s ↔ Covers ranges n

theorem covers_cons {r : ℕ × ℕ} {ranges : List (ℕ × ℕ)} {n : ℕ} :
    Covers (r :: ranges) n ↔ (r.1 ≤ n ∧ n ≤ r.2) ∨ Covers ranges n := List.exists_mem_cons_iff ..

theorem covers_nil {n : ℕ} : ¬ Covers [] n := by
  rintro ⟨r, hr, _⟩
  cases hr

/-- Put a number before ranges that all start above it. -/
def extend (n : ℕ) : List (ℕ × ℕ) → List (ℕ × ℕ)
  | [] => [(n, n)]
  | (first, last) :: ranges =>
    if first = n + 1 then (n, last) :: ranges else (n, n) :: (first, last) :: ranges

def ofSorted (ns : List ℕ) : List (ℕ × ℕ) := ns.foldr extend []

def ofFinset (s : Finset ℕ) : List (ℕ × ℕ) := ofSorted (s.sort (· ≤ ·))

/-- Ranges as `Describes` has them, none of which starts below `n`. -/
structure StartFrom (n : ℕ) (ranges : List (ℕ × ℕ)) : Prop where
  ordered : ∀ r ∈ ranges, r.1 ≤ r.2
  apart : ranges.Pairwise fun r r' => r.2 + 1 < r'.1
  low : ∀ r ∈ ranges, n ≤ r.1

theorem startFrom_nil (n : ℕ) : StartFrom n [] :=
  ⟨fun _ h => absurd h List.not_mem_nil, List.Pairwise.nil, fun _ h => absurd h List.not_mem_nil⟩

/-- A list of ranges starts from a number when its first range does and the rest leaves a gap. -/
theorem startFrom_cons {n : ℕ} {r : ℕ × ℕ} {ranges : List (ℕ × ℕ)} :
    StartFrom n (r :: ranges) ↔ n ≤ r.1 ∧ r.1 ≤ r.2 ∧ StartFrom (r.2 + 2) ranges := by
  constructor
  · intro h
    obtain ⟨hordered, hrest⟩ := List.forall_mem_cons.mp h.ordered
    obtain ⟨hapart, hapartrest⟩ := List.pairwise_cons.mp h.apart
    exact ⟨h.low r List.mem_cons_self, hordered, hrest, hapartrest, hapart⟩
  · intro h
    obtain ⟨hlow, hordered, hrest⟩ := h
    refine ⟨List.forall_mem_cons.mpr ⟨hordered, hrest.ordered⟩,
      List.pairwise_cons.mpr ⟨hrest.low, hrest.apart⟩, List.forall_mem_cons.mpr ⟨hlow, ?_⟩⟩
    intro r' hr'
    have hlater := hrest.low r' hr'
    omega

theorem StartFrom.mono {n m : ℕ} {ranges : List (ℕ × ℕ)} (h : StartFrom n ranges) (hm : m ≤ n) :
    StartFrom m ranges :=
  ⟨h.ordered, h.apart, fun r hr => hm.trans (h.low r hr)⟩

/-- The new number either joins the first range or is two below it at least. -/
theorem StartFrom.extend {n : ℕ} {ranges : List (ℕ × ℕ)} (h : StartFrom (n + 1) ranges) :
    StartFrom n (MaximalRanges.extend n ranges) := by
  cases ranges with
  | nil => exact startFrom_cons.mpr ⟨le_rfl, le_rfl, startFrom_nil _⟩
  | cons r ranges =>
    obtain ⟨first, last⟩ := r
    obtain ⟨hlow, hordered, hrest⟩ := startFrom_cons.mp h
    dsimp only at hlow hordered hrest
    rw [MaximalRanges.extend]
    split
    · exact startFrom_cons.mpr ⟨le_rfl, by omega, hrest⟩
    · refine startFrom_cons.mpr ⟨le_rfl, le_rfl, startFrom_cons.mpr ⟨?_, hordered, hrest⟩⟩
      dsimp only
      omega

/-- Extending by the number below covers that number as well. -/
theorem covers_extend {n : ℕ} {ranges : List (ℕ × ℕ)} (h : StartFrom (n + 1) ranges) (k : ℕ) :
    Covers (extend n ranges) k ↔ k = n ∨ Covers ranges k := by
  cases ranges with
  | nil =>
    simp only [extend, covers_cons, covers_nil, or_false]
    omega
  | cons r ranges =>
    obtain ⟨first, last⟩ := r
    have hordered := (startFrom_cons.mp h).2.1
    dsimp only at hordered
    rw [extend]
    split
    · simp only [covers_cons, ← or_assoc]
      apply or_congr_left
      omega
    · simp only [covers_cons, ← or_assoc]
      apply or_congr_left
      apply or_congr_left
      omega

theorem startFrom_ofSorted {n : ℕ} {ns : List ℕ} (hns : ns.Pairwise (· < ·))
    (h : ∀ k ∈ ns, n ≤ k) : StartFrom n (ofSorted ns) := by
  induction ns generalizing n with
  | nil => exact startFrom_nil n
  | cons m ns ih =>
    obtain ⟨hm, hrest⟩ := List.pairwise_cons.mp hns
    exact (ih hrest hm).extend.mono (h m List.mem_cons_self)

theorem covers_ofSorted {ns : List ℕ} (hns : ns.Pairwise (· < ·)) (n : ℕ) :
    Covers (ofSorted ns) n ↔ n ∈ ns := by
  induction ns with
  | nil => exact iff_of_false covers_nil List.not_mem_nil
  | cons m ns ih =>
    obtain ⟨hm, hrest⟩ := List.pairwise_cons.mp hns
    rw [List.mem_cons, ← ih hrest]
    exact covers_extend (startFrom_ofSorted hrest hm) n

/-- The ranges are computed from the sorted elements. -/
theorem describes_ofFinset (s : Finset ℕ) : Describes (ofFinset s) s := by
  have hsorted : (s.sort (· ≤ ·)).Pairwise (· < ·) := s.sortedLT_sort.pairwise
  have hstart := startFrom_ofSorted hsorted fun k _ => Nat.zero_le k
  refine ⟨hstart.ordered, hstart.apart, fun n => ?_⟩
  rw [ofFinset, covers_ofSorted hsorted, Finset.mem_sort]

theorem Describes.startFrom {ranges : List (ℕ × ℕ)} {s : Finset ℕ} (h : Describes ranges s) :
    StartFrom 0 ranges :=
  ⟨h.ordered, h.apart, fun _ _ => Nat.zero_le _⟩

theorem StartFrom.le_of_covers {n k : ℕ} {ranges : List (ℕ × ℕ)} (h : StartFrom n ranges)
    (hk : Covers ranges k) : n ≤ k := by
  obtain ⟨r, hr, hfirst, _⟩ := hk
  exact (h.low r hr).trans hfirst

theorem StartFrom.covers_first {n : ℕ} {r : ℕ × ℕ} {ranges : List (ℕ × ℕ)}
    (h : StartFrom n (r :: ranges)) : Covers (r :: ranges) r.1 :=
  covers_cons.mpr (Or.inl ⟨le_rfl, (startFrom_cons.mp h).2.1⟩)

/-- The later ranges cover what lies beyond the first one. -/
theorem StartFrom.covers_tail {n k : ℕ} {r : ℕ × ℕ} {ranges : List (ℕ × ℕ)}
    (h : StartFrom n (r :: ranges)) :
    Covers ranges k ↔ Covers (r :: ranges) k ∧ r.2 < k := by
  obtain ⟨_, hordered, hrest⟩ := startFrom_cons.mp h
  rw [covers_cons]
  constructor
  · intro hk
    have hlater := hrest.le_of_covers hk
    exact ⟨Or.inr hk, by omega⟩
  · intro hk
    obtain ⟨hin | hk, hlt⟩ := hk
    · omega
    · exact hk

/-- The number after the first range is missing. -/
theorem StartFrom.not_covers_succ {n : ℕ} {r : ℕ × ℕ} {ranges : List (ℕ × ℕ)}
    (h : StartFrom n (r :: ranges)) : ¬ Covers (r :: ranges) (r.2 + 1) := by
  intro hk
  have hmem := h.covers_tail.mpr ⟨hk, Nat.lt_succ_self r.2⟩
  have hlater := (startFrom_cons.mp h).2.2.le_of_covers hmem
  omega

/-- A first range ends no earlier than that of a list that covers no more and starts there. -/
theorem StartFrom.last_le {n : ℕ} {r r' : ℕ × ℕ} {ranges ranges' : List (ℕ × ℕ)}
    (h : StartFrom n (r :: ranges)) (hfirst : r.1 = r'.1)
    (hcovers : ∀ k, Covers (r' :: ranges') k → Covers (r :: ranges) k) : r'.2 ≤ r.2 := by
  have hordered := (startFrom_cons.mp h).2.1
  by_contra hlt
  have hin : r'.1 ≤ r.2 + 1 ∧ r.2 + 1 ≤ r'.2 := by omega
  exact h.not_covers_succ (hcovers _ (covers_cons.mpr (Or.inl hin)))

/-- Lists that cover the same numbers are equal, range by range. -/
theorem StartFrom.eq {n m : ℕ} {ranges ranges' : List (ℕ × ℕ)} (h : StartFrom n ranges)
    (h' : StartFrom m ranges') (hcovers : ∀ k, Covers ranges k ↔ Covers ranges' k) :
    ranges = ranges' := by
  induction ranges generalizing n m ranges' with
  | nil =>
    cases ranges' with
    | nil => rfl
    | cons r' ranges' => exact absurd ((hcovers _).mpr h'.covers_first) covers_nil
  | cons r ranges ih =>
    cases ranges' with
    | nil => exact absurd ((hcovers _).mp h.covers_first) covers_nil
    | cons r' ranges' =>
      obtain ⟨_, hordered, hrest⟩ := startFrom_cons.mp h
      obtain ⟨_, hordered', hrest'⟩ := startFrom_cons.mp h'
      have hhead : StartFrom r.1 (r :: ranges) := startFrom_cons.mpr ⟨le_rfl, hordered, hrest⟩
      have hhead' : StartFrom r'.1 (r' :: ranges') :=
        startFrom_cons.mpr ⟨le_rfl, hordered', hrest'⟩
      have hfirst : r.1 = r'.1 := by
        apply le_antisymm
        · exact hhead.le_of_covers ((hcovers _).mpr h'.covers_first)
        · exact hhead'.le_of_covers ((hcovers _).mp h.covers_first)
      have hlast : r.2 = r'.2 := by
        apply le_antisymm
        · exact h'.last_le hfirst.symm fun k => (hcovers k).mp
        · exact h.last_le hfirst fun k => (hcovers k).mpr
      have htail : ranges = ranges' := by
        apply ih hrest hrest'
        intro k
        rw [h.covers_tail, h'.covers_tail, hcovers, hlast]
      rw [htail, Prod.ext hfirst hlast]

/-- A set has one list of maximal ranges. -/
theorem Describes.eq_ofFinset {ranges : List (ℕ × ℕ)} {s : Finset ℕ} (h : Describes ranges s) :
    ranges = ofFinset s := by
  have hranges := describes_ofFinset s
  apply h.startFrom.eq hranges.startFrom
  intro k
  rw [← h.covers, hranges.covers]

end MaximalRanges
