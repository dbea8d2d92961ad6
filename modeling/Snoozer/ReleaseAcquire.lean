import Mathlib.Order.Lattice
import Mathlib.Order.BoundedOrder.Basic
import Mathlib.Tactic.Common

/-! Release/acquire views of one atomic location. Messages sit at the times of
the location's modification order; an update sits at the time right after the
message it read, so that nothing can come between the two. -/
namespace ReleaseAcquire

variable {V L T : Type}

/-- A write: its value, the view that an acquiring reader joins, and a tag that
says which write it is. -/
structure Message (V L T : Type) where
  value : V
  data : L
  tag : T

/-- What a thread has seen: a time of the location, and everything else. -/
structure View (L : Type) where
  time : ℕ
  data : L

abbrev Memory (V L T : Type) := ℕ → Option (Message V L T)

namespace Memory

def insert (mem : Memory V L T) (t : ℕ) (m : Message V L T) : Memory V L T :=
  fun u => if u = t then some m else mem u

variable {mem : Memory V L T} {t u : ℕ} {m m' : Message V L T}

@[simp] theorem insert_self : mem.insert t m t = some m := if_pos rfl

theorem insert_ne (h : u ≠ t) : mem.insert t m u = mem u := if_neg h

theorem insert_eq_some (h : mem.insert t m u = some m') :
    (u = t ∧ m' = m) ∨ (u ≠ t ∧ mem u = some m') := by
  by_cases hu : u = t
  · subst hu
    rw [insert_self] at h
    exact Or.inl ⟨rfl, (Option.some.inj h).symm⟩
  · rw [insert_ne hu] at h
    exact Or.inr ⟨hu, h⟩

/-- A fresh insertion keeps the messages that are there. -/
theorem insert_of_mem (ht : mem t = none) (h : mem u = some m') : mem.insert t m u = some m' := by
  have hne : u ≠ t := by
    rintro rfl
    cases ht.symm.trans h
  rw [insert_ne hne, h]

/-- Later messages carry larger views. -/
def Ordered [LE L] (mem : Memory V L T) : Prop :=
  ∀ t u m m', t ≤ u → mem t = some m → mem u = some m' → m.data ≤ m'.data

/-- A message that fits between what comes before and after it keeps the order. -/
theorem Ordered.insert [Preorder L] (hmem : mem.Ordered)
    (hbefore : ∀ u m', u < t → mem u = some m' → m'.data ≤ m.data)
    (hafter : ∀ u m', t < u → mem u = some m' → m.data ≤ m'.data) : (mem.insert t m).Ordered := by
  intro u w mu mw huw hu hw
  rcases insert_eq_some hu with ⟨rfl, rfl⟩ | ⟨hne, hu'⟩
  · rcases insert_eq_some hw with ⟨rfl, rfl⟩ | ⟨hne, hw'⟩
    · exact le_refl _
    · exact hafter w mw (by omega) hw'
  · rcases insert_eq_some hw with ⟨rfl, rfl⟩ | ⟨_, hw'⟩
    · exact hbefore u mu (by omega) hu'
    · exact hmem u w mu mw huw hu' hw'

/-- An update that passes on the view it read keeps the order wherever it sits. -/
theorem Ordered.insert_update [Preorder L] (hmem : mem.Ordered) (ht : mem t = some m)
    (hdata : m'.data = m.data) : (mem.insert (t + 1) m').Ordered := by
  apply hmem.insert
  · intro u mu hu hmu
    rw [hdata]
    exact hmem u t mu m (by omega) hmu ht
  · intro u mu hu hmu
    rw [hdata]
    exact hmem t u m mu (by omega) ht hmu

/-- There are no gaps: every message but the first is next to its predecessor. -/
def Contiguous (mem : Memory V L T) : Prop := ∀ t, mem t = none → mem (t + 1) = none

theorem Contiguous.lt_of_none (hmem : mem.Contiguous) (ht : mem t = none) (hu : mem u = some m) :
    u < t := by
  by_contra hlt
  have hnone : ∀ j, mem (t + j) = none := by
    intro j
    induction j with
    | zero => exact ht
    | succ j ih => exact hmem _ ih
  have h := hnone (u - t)
  rw [show t + (u - t) = u by omega, hu] at h
  cases h

/-- A message right after another keeps the time stamps contiguous. -/
theorem Contiguous.insert (hmem : mem.Contiguous) (ht : mem t = some m) :
    (mem.insert (t + 1) m').Contiguous := by
  intro u hu
  by_cases hut : u = t + 1
  · subst hut
    rw [insert_self] at hu
    cases hu
  · rw [insert_ne hut] at hu
    have hne : u + 1 ≠ t + 1 := by
      intro h
      rw [show u = t by omega, ht] at hu
      cases hu
    rw [insert_ne hne]
    exact hmem u hu

def Bounded (mem : Memory V L T) : Prop := ∃ N, ∀ t, N ≤ t → mem t = none

theorem Bounded.insert (hmem : mem.Bounded) : (mem.insert t m).Bounded := by
  obtain ⟨N, hN⟩ := hmem
  refine ⟨max N (t + 1), fun u hu => ?_⟩
  rw [insert_ne (by omega)]
  exact hN u (by omega)

/-- From any message on there is one that an update can still read. -/
theorem Bounded.exists_last (hmem : mem.Bounded) (ht : mem t = some m) :
    ∃ u m', t ≤ u ∧ mem u = some m' ∧ mem (u + 1) = none := by
  obtain ⟨N, hN⟩ := hmem
  have key : ∀ k t m, N ≤ t + k → mem t = some m →
      ∃ u m', t ≤ u ∧ mem u = some m' ∧ mem (u + 1) = none := by
    intro k
    induction k with
    | zero =>
      intro t m hk ht
      cases (hN t (by omega)).symm.trans ht
    | succ k ih =>
      intro t m hk ht
      cases hnext : mem (t + 1) with
      | none => exact ⟨t, m, Nat.le_refl t, ht, hnext⟩
      | some m₁ =>
        obtain ⟨u, m', hle, hu⟩ := ih (t + 1) m₁ (by omega) hnext
        exact ⟨u, m', by omega, hu⟩
  exact key N t m (by omega) ht

end Memory

/-- Reading the message at `t`; only an acquiring read joins the message's view. -/
def View.read [Max L] (v : View L) (acquire : Bool) (t : ℕ) (m : Message V L T) : View L :=
  ⟨t, if acquire then v.data ⊔ m.data else v.data⟩

end ReleaseAcquire
