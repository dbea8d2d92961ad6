import Mathlib.Data.Nat.Notation
import Mathlib.Order.Nat
import Mathlib.Tactic.Common

/-! Unsigned decimal numbers as the standard library of Rust reads them: an optional plus sign,
at least one digit, leading zeros allowed, and no value above the greatest of the type. -/
namespace Decimal

inductive IntErrorKind where
  | empty | invalidDigit | posOverflow
  deriving DecidableEq, Repr

def IntErrorKind.display : IntErrorKind → String
  | empty => "cannot parse integer from empty string"
  | invalidDigit => "invalid digit found in string"
  | posOverflow => "number too large to fit in target type"

variable (max : ℕ)

def pushDigit (value : ℕ) (c : Char) : Except IntErrorKind ℕ :=
  if c.isDigit then
    let value := 10 * value + (c.toNat - '0'.toNat)
    if value ≤ max then .ok value else .error .posOverflow
  else
    .error .invalidDigit

def readDigits (value : ℕ) : List Char → Except IntErrorKind ℕ
  | [] => .ok value
  | c :: digits => (pushDigit max value c).bind fun value => readDigits value digits

def stripPlus : List Char → List Char
  | [] => []
  | c :: rest => if c = '+' then rest else c :: rest

/-- `from_str`. -/
def fromStr (text : List Char) : Except IntErrorKind ℕ :=
  if text = [] then .error .empty
  else if text = ['+'] ∨ text = ['-'] then .error .invalidDigit
  else readDigits max 0 (stripPlus text)

/-- The grammar: the text is a literal for the number. -/
def Literal (text : List Char) (n : ℕ) : Prop :=
  ∃ digits, (text = digits ∨ text = '+' :: digits) ∧ digits ≠ [] ∧
    (∀ c ∈ digits, c.isDigit = true) ∧ n = Nat.ofDigitChars 10 digits 0 ∧ n ≤ max

theorem le_ofDigitChars (digits : List Char) (value : ℕ) :
    value ≤ Nat.ofDigitChars 10 digits value := by
  induction digits generalizing value with
  | nil => exact Nat.ofDigitChars_nil.ge
  | cons c digits ih =>
    rw [Nat.ofDigitChars_cons]
    have hstep := ih (10 * value + (c.toNat - '0'.toNat))
    omega

variable {max}

/-- No overflow on the way: the value only grows. -/
theorem readDigits_eq_ok {digits : List Char} {value n : ℕ} (hvalue : value ≤ max) :
    readDigits max value digits = .ok n ↔
      (∀ c ∈ digits, c.isDigit = true) ∧ n = Nat.ofDigitChars 10 digits value ∧ n ≤ max := by
  induction digits generalizing value with
  | nil =>
    rw [readDigits, Nat.ofDigitChars_nil, Except.ok.injEq]
    constructor
    · intro h
      exact ⟨fun _ hc => absurd hc List.not_mem_nil, h.symm, h ▸ hvalue⟩
    · intro h
      exact h.2.1.symm
  | cons c digits ih =>
    rw [readDigits, Nat.ofDigitChars_cons, List.forall_mem_cons]
    by_cases hdigit : c.isDigit = true
    · have hpush : pushDigit max value c =
          if 10 * value + (c.toNat - '0'.toNat) ≤ max then
            .ok (10 * value + (c.toNat - '0'.toNat))
          else .error .posOverflow := if_pos hdigit
      by_cases hfits : 10 * value + (c.toNat - '0'.toNat) ≤ max
      · rw [hpush, if_pos hfits, Except.bind, ih hfits]
        simp only [hdigit, true_and]
      · have hgrows := le_ofDigitChars digits (10 * value + (c.toNat - '0'.toNat))
        rw [hpush, if_neg hfits]
        simp only [Except.bind, reduceCtorEq, false_iff]
        intro h
        omega
    · have hpush : pushDigit max value c = .error .invalidDigit := if_neg hdigit
      rw [hpush]
      simp only [Except.bind, reduceCtorEq, hdigit, false_and]

theorem not_isDigit_plus : '+'.isDigit = false := by decide

theorem not_isDigit_minus : '-'.isDigit = false := by decide

theorem stripPlus_of_digits {digits : List Char} (h : ∀ c ∈ digits, c.isDigit = true) :
    stripPlus digits = digits := by
  cases digits with
  | nil => rfl
  | cons c digits =>
    have hne : c ≠ '+' := by
      intro hc
      have hdigit := h c List.mem_cons_self
      rw [hc, not_isDigit_plus] at hdigit
      cases hdigit
    rw [stripPlus, if_neg hne]

theorem stripPlus_eq {text : List Char} : text = stripPlus text ∨ text = '+' :: stripPlus text := by
  cases text with
  | nil => exact Or.inl rfl
  | cons c rest =>
    rw [stripPlus]
    split
    · next hc => exact Or.inr (by rw [hc])
    · exact Or.inl rfl

/-- What is read are the literals. -/
theorem fromStr_eq_ok {text : List Char} {n : ℕ} :
    fromStr max text = .ok n ↔ Literal max text n := by
  unfold fromStr
  constructor
  · intro h
    split at h
    · cases h
    · next hne =>
      split at h
      · cases h
      · next hsign =>
        obtain ⟨hdigits, hn, hle⟩ := (readDigits_eq_ok (Nat.zero_le max)).mp h
        refine ⟨stripPlus text, stripPlus_eq, ?_, hdigits, hn, hle⟩
        intro hnil
        have hstrip : text = stripPlus text ∨ text = '+' :: stripPlus text := stripPlus_eq
        rcases hstrip with htext | htext
        · exact hne (htext.trans hnil)
        · exact hsign (Or.inl (by rw [htext, hnil]))
  · rintro ⟨digits, htext, hne, hdigits, hn, hle⟩
    have hread : readDigits max 0 digits = .ok n :=
      (readDigits_eq_ok (Nat.zero_le max)).mpr ⟨hdigits, hn, hle⟩
    have hsign (c : Char) (hc : c.isDigit = false) : digits ≠ [c] := by
      intro heq
      have hdigit := hdigits c (by rw [heq]; exact List.mem_cons_self)
      rw [hc] at hdigit
      cases hdigit
    rcases htext with rfl | rfl
    · rw [if_neg hne, if_neg, stripPlus_of_digits hdigits, hread]
      rintro (h | h)
      · exact hsign '+' not_isDigit_plus h
      · exact hsign '-' not_isDigit_minus h
    · rw [if_neg (List.cons_ne_nil _ _), if_neg, stripPlus, if_pos rfl, hread]
      rintro (h | h)
      · exact hne (List.cons.inj h).2
      · exact absurd (List.cons.inj h).1 (by decide)

theorem Literal.unique {text : List Char} {n n' : ℕ} (h : Literal max text n)
    (h' : Literal max text n') : n = n' := by
  have hread := (fromStr_eq_ok.mpr h).symm.trans (fromStr_eq_ok.mpr h')
  exact Except.ok.inj hread

/-- The decimal digits of a number are a literal for it. -/
theorem literal_repr {n : ℕ} (hn : n ≤ max) : Literal max n.repr.toList n := by
  refine ⟨Nat.toDigits 10 n, Or.inl Nat.toList_repr, Nat.toDigits_ne_nil, ?_, ?_, hn⟩
  · intro c hc
    exact Nat.isDigit_of_mem_toDigits (by decide) le_rfl hc
  · exact Nat.ofDigitChars_ten_toDigits.symm

/-- A literal is made of digits and a plus sign. -/
theorem Literal.notMem {text : List Char} {n : ℕ} (h : Literal max text n) {c : Char}
    (hdigit : c.isDigit = false) (hplus : c ≠ '+') : c ∉ text := by
  obtain ⟨digits, htext, -, hdigits, -, -⟩ := h
  have hnot : c ∉ digits := by
    intro hc
    rw [hdigits c hc] at hdigit
    cases hdigit
  rcases htext with rfl | rfl
  · exact hnot
  · exact List.not_mem_cons_of_ne_of_not_mem hplus hnot

end Decimal
