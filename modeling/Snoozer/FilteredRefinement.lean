import Snoozer.FilteredStreams

/-! One specification for the filtered waits, in terms of the streams alone, and
the proof that every strategy refines it. -/
namespace Snoozer
open Interactive

variable {V : Type}

/-- Load `k` is the first to differ from the expected value. -/
def FirstDifferent (w : Streams V) (expected : V) (k : ℕ) : Prop :=
  w.loads k ≠ expected ∧ ∀ j < k, w.loads j = expected

/-- The deadline check after load `j` finds the timeout elapsed. Reading 0 of the
clock belongs to `Deadline::new`, so check `j` is reading `j + 1`. -/
def LateCheck (w : Streams V) (timeout j : ℕ) : Prop := timeout ≤ w.clock (j + 1) - w.clock 0

instance (w : Streams V) (timeout j : ℕ) : Decidable (LateCheck w timeout j) :=
  inferInstanceAs (Decidable (timeout ≤ w.clock (j + 1) - w.clock 0))

/-- Check `i` is the first late one, and no load up to it differs. -/
def FirstLate (w : Streams V) (expected : V) (timeout i : ℕ) : Prop :=
  LateCheck w timeout i ∧ (∀ j < i, ¬ LateCheck w timeout j) ∧ ∀ j ≤ i, w.loads j = expected

/-- What `wait_until_different` is for. -/
structure UntimedSpec (w : Streams V) (expected : V) (p : WaitProg V V) : Prop where
  returns_iff : ∀ v, (∃ t, Returns w.handler p [] v t) ↔
    ∃ k, FirstDifferent w expected k ∧ v = w.loads k
  loads : ∀ v t, Returns w.handler p [] v t → ∃ k, FirstDifferent w expected k ∧
    v = w.loads k ∧ (loadsOf t).length = k + 1 ∧ clocksOf t = []
  forever_iff : (∀ n, p.run w.handler n [] = none) ↔ ∀ k, w.loads k = expected

/-- What `wait_until_different_timeout` is for. A `Changed` call has made its `k`
deadline checks before load `k`; a `TimedOut` call ends with its late check. -/
structure TimedSpec (w : Streams V) (expected : V) (timeout : ℕ)
    (p : WaitProg V (WaitUntilTimeoutResult V)) : Prop where
  changed_iff : ∀ v, (∃ t, Returns w.handler p [] (.changed v) t) ↔
    ∃ k, FirstDifferent w expected k ∧ (∀ j < k, ¬ LateCheck w timeout j) ∧ v = w.loads k
  timedOut_iff : (∃ t, Returns w.handler p [] .timedOut t) ↔
    ∃ i, FirstLate w expected timeout i
  changed_counts : ∀ v t, Returns w.handler p [] (.changed v) t → ∃ k,
    FirstDifferent w expected k ∧ (loadsOf t).length = k + 1 ∧ (clocksOf t).length = k + 1
  timedOut_last : ∀ t, Returns w.handler p [] .timedOut t → ∃ i t₀,
    FirstLate w expected timeout i ∧ t = t₀ ++ [⟨.instantNow, w.clock (i + 1)⟩] ∧
    (loadsOf t).length = i + 1 ∧ (clocksOf t).length = i + 2
  entry : w.loads 0 ≠ expected → ∃ t, Returns w.handler p [] (.changed (w.loads 0)) t
  forever_iff : (∀ n, p.run w.handler n [] = none) ↔
    ∀ j, w.loads j = expected ∧ ¬ LateCheck w timeout j

theorem FirstDifferent.unique {w : Streams V} {expected : V} {k k' : ℕ}
    (h : FirstDifferent w expected k) (h' : FirstDifferent w expected k') : k = k' := by
  rcases Nat.lt_trichotomy k k' with hlt | heq | hlt
  · exact absurd (h'.2 k hlt) h.1
  · exact heq
  · exact absurd (h.2 k' hlt) h'.1

/-- A change at `k` with no late check before it excludes a first late check. -/
theorem FirstDifferent.not_firstLate {w : Streams V} {expected : V} {timeout k i : ℕ}
    (hk : FirstDifferent w expected k) (hearly : ∀ j < k, ¬ LateCheck w timeout j)
    (hi : FirstLate w expected timeout i) : False := by
  rcases Nat.lt_or_ge i k with hlt | hle
  · exact hearly i hlt hi.1
  · exact hk.1 (hi.2.2 k hle)

/-- A program that never returns is one whose every bound is too small. -/
theorem forever_iff_not_returns {α : Type} {w : Streams V} {p : WaitProg V α} :
    (∀ n, p.run w.handler n [] = none) ↔ ∀ a t, ¬ Returns w.handler p [] a t := by
  constructor
  · rintro h a t ⟨n, hn⟩
    cases (h n).symm.trans hn
  · intro h n
    cases hr : p.run w.handler n [] with
    | none => rfl
    | some r => exact absurd ⟨n, hr⟩ (h r.1 r.2)

/-- When `wait_until_different` stops retrying. -/
def untimedDecision : WaitTimeoutResult V → Option V
  | .changed value => some value
  | _ => none

/-- When `wait_until_different_timeout` stops retrying. -/
def timedDecision : WaitTimeoutResult V → Option (WaitUntilTimeoutResult V)
  | .changed value => some (.changed value)
  | .timedOut => some .timedOut
  | .unclassified => none

theorem polledUpTo_zero (w : Streams V) (expected : V) (deadline : Option Deadline) :
    PolledUpTo w expected deadline 0 :=
  ⟨fun j hj => absurd hj (Nat.not_lt_zero j), fun j hj => absurd hj (Nat.not_lt_zero j)⟩

section Untimed

variable [DecidableEq V] (w : Streams V) (strategy : WaitStrategy) (atomic : WaitableAtomic)
  (expected : V)

/-- A value that is returned is the first different one, and no clock was read. -/
theorem waitUntilDifferent_sound {v : V} {t : List (WaitEvent V)}
    (hr : Returns w.handler (strategy.waitUntilDifferent atomic expected) [] v t) :
    ∃ k, FirstDifferent w expected k ∧ v = w.loads k ∧ (loadsOf t).length = k + 1 ∧
      clocksOf t = [] := by
  have hnone : ∀ t, ¬ StreamFacts w expected none 0 .expired t := by
    rintro t ⟨_, _, hd, _⟩
    cases hd
  have hstart : StreamFacts w expected none 0 .polling [] :=
    ⟨polledUpTo_zero w expected none, rfl, Nat.le_refl 0⟩
  have hwp := (streamFacts_assertion w atomic expected none 0).waitUntilDifferent strategy hnone
    hstart
  obtain ⟨k, hl, hc, hp, hv, hne⟩ := (hwp _ _ (Streams.reach_of_returns hr)).2 v rfl
  exact ⟨k, ⟨hv ▸ hne, hp.loads⟩, hv, hl, List.length_eq_zero_iff.mp hc⟩

/-- A stream that changes ends the wait. -/
theorem waitUntilDifferent_returns {k : ℕ} (hk : w.loads k ≠ expected) :
    ∃ v t, Returns w.handler (strategy.waitUntilDifferent atomic expected) [] v t := by
  have hprog : strategy.waitUntilDifferent atomic expected =
      .loop ((strategy.waitRaw atomic expected none).bind fun r => .ret (untimedDecision r)) .ret := by
    simp only [WaitStrategy.waitUntilDifferent, waitRawUntimed_eq, Prog.monad_bind_eq]
    congr 2
    funext r
    cases r <;> rfl
  rw [hprog]
  refine retry_returns (K := k) atomic strategy untimedDecision (Or.inl hk) ?_ _ [] rfl
    ⟨polledUpTo_zero w expected none, rfl, Nat.le_refl 0⟩
  intro n₀ r t hf hr
  cases r with
  | changed v => cases hr
  | unclassified => rfl
  | timedOut =>
    obtain ⟨_, _, hd, _⟩ := hf
    cases hd

/-- The untimed wait meets its specification. -/
theorem waitUntilDifferent_spec :
    UntimedSpec w expected (strategy.waitUntilDifferent atomic expected) := by
  have hiff : ∀ v, (∃ t, Returns w.handler (strategy.waitUntilDifferent atomic expected) [] v t) ↔
      ∃ k, FirstDifferent w expected k ∧ v = w.loads k := by
    intro v
    constructor
    · rintro ⟨t, hr⟩
      obtain ⟨k, hk, hv, _⟩ := waitUntilDifferent_sound w strategy atomic expected hr
      exact ⟨k, hk, hv⟩
    · rintro ⟨k, hk, rfl⟩
      obtain ⟨v, t, hr⟩ := waitUntilDifferent_returns w strategy atomic expected hk.1
      obtain ⟨k', hk', hv, _⟩ := waitUntilDifferent_sound w strategy atomic expected hr
      rw [hk.unique hk', ← hv]
      exact ⟨t, hr⟩
  refine ⟨hiff, fun v t hr => waitUntilDifferent_sound w strategy atomic expected hr, ?_⟩
  rw [forever_iff_not_returns]
  constructor
  · intro h k
    by_contra hk
    obtain ⟨v, t, hr⟩ := waitUntilDifferent_returns w strategy atomic expected hk
    exact h v t hr
  · intro h v t hr
    obtain ⟨k, hk, _⟩ := waitUntilDifferent_sound w strategy atomic expected hr
    exact hk.1 (h k)

end Untimed

theorem RawAssertion.and_const {σ : Type} [DecidableEq V] {M : Machine (WaitOp V) (WaitAns V) σ}
    {G : Option (WaitOp V) → σ → Prop} {atomic : WaitableAtomic} {expected : V}
    {deadline : Option Deadline} {A : RawPhase V → σ → Prop}
    (hA : RawAssertion M G atomic expected deadline A) (P : Prop) :
    RawAssertion M G atomic expected deadline fun φ s => P ∧ A φ s :=
  ⟨fun φ s s' h he => ⟨h.1, hA.stable φ s s' h.2 he⟩,
    fun φ e φ' s s' hs h ha => ⟨h.1, hA.act φ e φ' s s' hs h.2 ha⟩,
    fun φ o s ho h => hA.guard φ o s ho h.2, fun s h => ⟨h.1, hA.again s h.2⟩⟩

section Timed

variable [DecidableEq V] (w : Streams V) (strategy : WaitStrategy) (atomic : WaitableAtomic)
  (expected : V) (timeout : ℕ)

omit [DecidableEq V] in
theorem early_iff_not_late (j : ℕ) :
    w.Early (some ⟨w.clock 0, timeout⟩) j ↔ ¬ LateCheck w timeout j := by
  constructor
  · intro h hl
    have := h _ rfl
    simp only [Deadline.elapsed, LateCheck] at this hl
    omega
  · rintro h d ⟨⟩
    simp only [Deadline.elapsed, LateCheck] at h ⊢
    omega

omit [DecidableEq V] in
theorem streamFacts_deadlineNew : StreamFacts w expected (some ⟨w.clock 0, timeout⟩) 0 .polling
    [⟨.instantNow, w.clock 0⟩] :=
  ⟨polledUpTo_zero w expected _, rfl, Nat.le_refl 0⟩

/-- What is known of the streams holds for a timed wait that returns. -/
theorem waitUntilDifferentTimeout_sound {r : WaitUntilTimeoutResult V} {t : List (WaitEvent V)}
    (hr : Returns w.handler (strategy.waitUntilDifferentTimeout atomic expected timeout) [] r t) :
    StreamFacts w expected (some ⟨w.clock 0, timeout⟩) 0 (.returning r.toRaw) t := by
  have hwp := wp_waitUntilDifferentTimeout (M := w.machine) (G := fun _ _ => True) (P := (· = []))
    (A := fun d φ t => d = ⟨w.clock 0, timeout⟩ ∧ StreamFacts w expected (some d) 0 φ t)
    strategy (w.machine_closed.stable _) (fun _ _ => trivial)
    (fun d _ => (streamFacts_assertion w atomic expected (some d) 0).and_const _)
    (by
      rintro now t t' rfl ⟨hnow, rfl⟩
      subst hnow
      exact ⟨rfl, streamFacts_deadlineNew w expected timeout⟩) rfl
  obtain ⟨d, rfl, hf⟩ := (hwp _ _ (Streams.reach_of_returns hr)).2 r rfl
  exact hf

/-- A stream that changes, or a clock that runs out at a check, ends the timed wait. -/
theorem waitUntilDifferentTimeout_returns {K : ℕ}
    (hK : w.loads K ≠ expected ∨ LateCheck w timeout K) : ∃ r t,
    Returns w.handler (strategy.waitUntilDifferentTimeout atomic expected timeout) [] r t := by
  have hprog : strategy.waitUntilDifferentTimeout atomic expected timeout =
      (Deadline.new timeout).bind fun d =>
        .loop ((strategy.waitRaw atomic expected (some d)).bind fun r =>
          .ret (timedDecision r)) .ret := by
    simp only [WaitStrategy.waitUntilDifferentTimeout, Prog.monad_bind_eq]
    congr 1
    funext d
    congr 2
    funext r
    cases r <;> rfl
  have hdec : Decisive w expected (some ⟨w.clock 0, timeout⟩) K := by
    rcases hK with hl | hl
    · exact Or.inl hl
    · exact Or.inr fun h => (early_iff_not_late w timeout K).mp h hl
  obtain ⟨r, t, hr⟩ := retry_returns atomic strategy timedDecision hdec
    (fun n₀ r t _ hr => by
      cases r with
      | changed v => cases hr
      | unclassified => rfl
      | timedOut => cases hr) _ _ rfl (streamFacts_deadlineNew w expected timeout)
  rw [hprog]
  exact ⟨r, t, returns_call hr⟩

variable {w strategy atomic expected timeout} in
theorem waitUntilDifferentTimeout_changed {v : V} {t : List (WaitEvent V)}
    (hr : Returns w.handler (strategy.waitUntilDifferentTimeout atomic expected timeout) []
      (.changed v) t) :
    ∃ k, FirstDifferent w expected k ∧ (∀ j < k, ¬ LateCheck w timeout j) ∧ v = w.loads k ∧
      (loadsOf t).length = k + 1 ∧ (clocksOf t).length = k + 1 := by
  obtain ⟨k, hl, hc, hp, hv, hne⟩ :=
    waitUntilDifferentTimeout_sound w strategy atomic expected timeout hr
  refine ⟨k, ⟨hv ▸ hne, hp.loads⟩, fun j hj => ?_, hv, hl, hc⟩
  exact (early_iff_not_late w timeout j).mp (hp.checks j hj)

variable {w strategy atomic expected timeout} in
/-- A wait that has timed out has read the clock once more than the value. -/
theorem waitUntilDifferentTimeout_timedOut {t : List (WaitEvent V)}
    (hr : Returns w.handler (strategy.waitUntilDifferentTimeout atomic expected timeout) []
      .timedOut t) :
    ∃ i t₀, FirstLate w expected timeout i ∧ t = t₀ ++ [⟨.instantNow, w.clock (i + 1)⟩] ∧
      (loadsOf t).length = i + 1 ∧ (clocksOf t).length = i + 2 := by
  obtain ⟨i, d, hd, hl, hc, hp, hi, hlate, t₀, ht⟩ :=
    waitUntilDifferentTimeout_sound w strategy atomic expected timeout hr
  cases hd
  refine ⟨i, t₀, ⟨hlate, fun j hj => ?_, fun j hj => ?_⟩, ht, hl, hc⟩
  · exact (early_iff_not_late w timeout j).mp (hp.checks j hj)
  · rcases Nat.lt_or_eq_of_le hj with hj | rfl
    · exact hp.loads j hj
    · exact hi

/-- The timed wait meets its specification. -/
theorem waitUntilDifferentTimeout_spec : TimedSpec w expected timeout
    (strategy.waitUntilDifferentTimeout atomic expected timeout) := by
  have hchanged : ∀ v, (∃ t, Returns w.handler
      (strategy.waitUntilDifferentTimeout atomic expected timeout) [] (.changed v) t) ↔
      ∃ k, FirstDifferent w expected k ∧ (∀ j < k, ¬ LateCheck w timeout j) ∧ v = w.loads k := by
    intro v
    constructor
    · rintro ⟨t, hr⟩
      obtain ⟨k, hk, hearly, hv, _⟩ := waitUntilDifferentTimeout_changed hr
      exact ⟨k, hk, hearly, hv⟩
    · rintro ⟨k, hk, hearly, rfl⟩
      obtain ⟨r, t, hr⟩ := waitUntilDifferentTimeout_returns w strategy atomic expected timeout
        (Or.inl hk.1)
      cases r with
      | changed v =>
        obtain ⟨k', hk', _, hv, _⟩ := waitUntilDifferentTimeout_changed hr
        rw [hk.unique hk', ← hv]
        exact ⟨t, hr⟩
      | timedOut =>
        obtain ⟨i, _, hi, _⟩ := waitUntilDifferentTimeout_timedOut hr
        exact (hk.not_firstLate hearly hi).elim
  refine ⟨hchanged, ?_, ?_, fun t hr => waitUntilDifferentTimeout_timedOut hr, ?_, ?_⟩
  · constructor
    · rintro ⟨t, hr⟩
      obtain ⟨i, _, hi, _⟩ := waitUntilDifferentTimeout_timedOut hr
      exact ⟨i, hi⟩
    · rintro ⟨i, hi⟩
      obtain ⟨r, t, hr⟩ := waitUntilDifferentTimeout_returns w strategy atomic expected timeout
        (Or.inr hi.1)
      cases r with
      | changed v =>
        obtain ⟨k, hk, hearly, _⟩ := waitUntilDifferentTimeout_changed hr
        exact (hk.not_firstLate hearly hi).elim
      | timedOut => exact ⟨t, hr⟩
  · intro v t hr
    obtain ⟨k, hk, _, _, hl, hc⟩ := waitUntilDifferentTimeout_changed hr
    exact ⟨k, hk, hl, hc⟩
  · intro h
    exact (hchanged _).mpr ⟨0, ⟨h, fun j hj => absurd hj (Nat.not_lt_zero j)⟩,
      fun j hj => absurd hj (Nat.not_lt_zero j), rfl⟩
  · rw [forever_iff_not_returns]
    constructor
    · intro h j
      by_contra hj
      have hdec : w.loads j ≠ expected ∨ LateCheck w timeout j := by
        by_cases hl : w.loads j = expected
        · exact Or.inr (Decidable.not_not.mp fun hn => hj ⟨hl, hn⟩)
        · exact Or.inl hl
      obtain ⟨r, t, hr⟩ :=
        waitUntilDifferentTimeout_returns w strategy atomic expected timeout hdec
      exact h r t hr
    · intro h r t hr
      cases r with
      | changed v =>
        obtain ⟨k, hk, _⟩ := waitUntilDifferentTimeout_changed hr
        exact hk.1 (h k).1
      | timedOut =>
        obtain ⟨i, _, hi, _⟩ := waitUntilDifferentTimeout_timedOut hr
        exact (h i).2 hi.1

end Timed

/-- Every strategy refines the one specification, and so agrees with `BusySpin`. -/
theorem filteredWaits_refine [DecidableEq V] (strategy : WaitStrategy) (atomic : WaitableAtomic)
    (expected : V) (timeout : ℕ) (w : Streams V) :
    UntimedSpec w expected (strategy.waitUntilDifferent atomic expected) ∧
      (∀ v, (∃ t, Returns w.handler (strategy.waitUntilDifferent atomic expected) [] v t) ↔
        ∃ t, Returns w.handler (WaitStrategy.busySpin.waitUntilDifferent atomic expected) [] v t) ∧
      TimedSpec w expected timeout
        (strategy.waitUntilDifferentTimeout atomic expected timeout) := by
  have hspec := waitUntilDifferent_spec w strategy atomic expected
  have hbusy := waitUntilDifferent_spec w .busySpin atomic expected
  refine ⟨hspec, fun v => ?_, waitUntilDifferentTimeout_spec w strategy atomic expected timeout⟩
  rw [hspec.returns_iff, hbusy.returns_iff]

end Snoozer
