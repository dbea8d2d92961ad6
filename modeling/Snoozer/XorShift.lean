import Mathlib.Dynamics.PeriodicPts.Lemmas

/-! Steps that xor a word with a shifted copy of itself, at every width and for every shift.
They are linear over xor and keep the highest or the lowest set bit, so only zero is mapped to
zero and no two words have the same image. -/
namespace XorShift

variable {w : ℕ}

def right (k : ℕ) (x : BitVec w) : BitVec w := x ^^^ (x >>> k)

def left (k : ℕ) (x : BitVec w) : BitVec w := x ^^^ (x <<< k)

/-- A word that a shift to the right leaves alone has no highest bit. -/
theorem eq_zero_of_eq_ushiftRight {k : ℕ} (hk : 0 < k) {x : BitVec w} (h : x = x >>> k) :
    x = 0#w := by
  have hshift : x.toNat = x.toNat / 2 ^ k := by
    calc x.toNat = (x >>> k).toNat := congrArg BitVec.toNat h
      _ = x.toNat >>> k := BitVec.toNat_ushiftRight x k
      _ = x.toNat / 2 ^ k := Nat.shiftRight_eq_div_pow x.toNat k
  have hpow : 1 < 2 ^ k := Nat.one_lt_two_pow hk.ne'
  apply BitVec.eq_of_toNat_eq
  rw [BitVec.toNat_ofNat, Nat.zero_mod]
  by_contra hne
  have hlt := Nat.div_lt_self (Nat.pos_of_ne_zero hne) hpow
  omega

/-- A word that a shift to the left leaves alone has no lowest bit. -/
theorem eq_zero_of_eq_shiftLeft {k : ℕ} (hk : 0 < k) {x : BitVec w} (h : x = x <<< k) :
    x = 0#w := by
  have hbits (i : ℕ) : x.getLsbD i = false := by
    induction i using Nat.strong_induction_on with
    | _ i ih =>
      have hbit := congrArg (fun y : BitVec w => y.getLsbD i) h
      simp only [BitVec.getLsbD_shiftLeft] at hbit
      -- Bit `i` is either shifted in or the copy of a lower one.
      by_cases hi : i < k
      · simpa only [hi, decide_true, Bool.not_true, Bool.and_false, Bool.false_and] using hbit
      · rw [ih (i - k) (by omega), Bool.and_false] at hbit
        exact hbit
  apply BitVec.eq_of_getLsbD_eq
  intro i _
  rw [hbits i, BitVec.getLsbD_zero]

/-- A map that is linear over xor is injective when only zero is mapped to zero. -/
theorem injective_of_linear {f : BitVec w → BitVec w}
    (hxor : ∀ x y, f (x ^^^ y) = f x ^^^ f y) (hzero : ∀ x, f x = 0#w → x = 0#w) :
    Function.Injective f := by
  intro x y hxy
  have hdiff : f (x ^^^ y) = 0#w := by rw [hxor, hxy, BitVec.xor_self]
  exact BitVec.xor_eq_zero_iff.mp (hzero _ hdiff)

theorem right_injective {k : ℕ} (hk : 0 < k) : Function.Injective (right k : BitVec w → _) := by
  apply injective_of_linear
  · intro x y
    unfold right
    rw [BitVec.ushiftRight_xor_distrib]
    ac_rfl
  · intro x hx
    exact eq_zero_of_eq_ushiftRight hk (BitVec.xor_eq_zero_iff.mp hx)

theorem left_injective {k : ℕ} (hk : 0 < k) : Function.Injective (left k : BitVec w → _) := by
  apply injective_of_linear
  · intro x y
    unfold left
    rw [BitVec.shiftLeft_xor_distrib]
    ac_rfl
  · intro x hx
    exact eq_zero_of_eq_shiftLeft hk (BitVec.xor_eq_zero_iff.mp hx)

instance finiteBitVec : Finite (BitVec w) := Finite.of_injective BitVec.toFin fun _ _ => BitVec.eq_of_toFin_eq

/-- On finitely many states an injective step is a bijection, and every orbit returns to where
it started. -/
theorem exists_period {α : Type*} [Finite α] {step : α → α} (hstep : Function.Injective step)
    (a : α) : ∃ p, 0 < p ∧ ∀ n, step^[n + p] a = step^[n] a := by
  obtain ⟨p, hp, hperiod⟩ := Function.Injective.mem_periodicPts hstep a
  refine ⟨p, hp, fun n => ?_⟩
  rw [Function.iterate_add_apply, hperiod.eq]

end XorShift
