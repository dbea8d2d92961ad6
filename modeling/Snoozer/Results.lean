import Mathlib.Tactic.Common

/-! When a computation that may fail succeeds, and with what it fails. -/
namespace Results

variable {ε ε' α β : Type}

theorem bind_eq_ok {x : Except ε α} {f : α → Except ε β} {b : β} :
    (x >>= f) = .ok b ↔ ∃ a, x = .ok a ∧ f a = .ok b := by
  cases x with
  | error e => exact ⟨fun h => (nomatch h), fun ⟨_, h, _⟩ => (nomatch h)⟩
  | ok a =>
    constructor
    · exact fun h => ⟨a, rfl, h⟩
    · rintro ⟨_, ⟨⟩, h⟩
      exact h

theorem mapError_eq_ok {x : Except ε α} {f : ε → ε'} {a : α} :
    x.mapError f = .ok a ↔ x = .ok a := by
  cases x with
  | error e => exact ⟨fun h => (nomatch h), fun h => (nomatch h)⟩
  | ok b => exact ⟨fun h => Except.ok.inj h ▸ rfl, fun h => Except.ok.inj h ▸ rfl⟩

theorem map_eq_ok {x : Except ε α} {f : α → β} {b : β} :
    x.map f = .ok b ↔ ∃ a, x = .ok a ∧ f a = b := by
  cases x with
  | error e => exact ⟨fun h => (nomatch h), fun ⟨_, h, _⟩ => (nomatch h)⟩
  | ok a =>
    constructor
    · exact fun h => ⟨a, rfl, Except.ok.inj h⟩
    · rintro ⟨_, ⟨⟩, rfl⟩
      rfl

theorem pure_eq_ok {a b : α} : (pure a : Except ε α) = .ok b ↔ b = a := by
  constructor
  · intro h
    exact (Except.ok.inj h).symm
  · intro h
    rw [h]
    rfl

theorem mapError_eq_error {x : Except ε α} {f : ε → ε'} {e : ε'}
    (h : x.mapError f = .error e) : ∃ error, e = f error := by
  cases x with
  | error error => exact ⟨error, (Except.error.inj h).symm⟩
  | ok a => cases h

theorem bind_eq_error {x : Except ε α} {f : α → Except ε β} {e : ε}
    (h : x >>= f = .error e) : x = .error e ∨ ∃ a, x = .ok a ∧ f a = .error e := by
  cases x with
  | error error => exact Or.inl (congrArg Except.error (Except.error.inj h))
  | ok a => exact Or.inr ⟨a, rfl, h⟩

/-- An error under a condition, and else the rest. -/
theorem guard_eq_ok {c : Prop} [Decidable c] {e : ε} {rest : Except ε α} {a : α} :
    (if c then .error e else rest) = .ok a ↔ ¬ c ∧ rest = .ok a := by
  by_cases h : c
  · rw [if_pos h]
    exact iff_of_false (fun herror => nomatch herror) fun hc => hc.1 h
  · rw [if_neg h]
    exact (and_iff_right h).symm

end Results
