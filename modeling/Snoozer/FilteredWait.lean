import Snoozer.RawWaitTrace

/-! The filtered waits retry a raw wait until it decides. The rules here carry
assertions indexed by the raw wait's phase through the retry loop on any machine;
on value streams they give the one specification that every strategy refines. -/
namespace Snoozer
open Interactive

variable {V σ : Type} [DecidableEq V] {M : Machine (WaitOp V) (WaitAns V) σ}
  {G : Option (WaitOp V) → σ → Prop}

/-- Assertions about a machine, one for each phase of a raw wait, that survive
interference, every event of the protocol, and a retry after an unclassified wake. -/
structure RawAssertion (M : Machine (WaitOp V) (WaitAns V) σ) (G : Option (WaitOp V) → σ → Prop)
    (atomic : WaitableAtomic) (expected : V) (deadline : Option Deadline)
    (A : RawPhase V → σ → Prop) : Prop where
  stable : ∀ φ, Stable M (A φ)
  act : ∀ φ e φ' s s', RawStep atomic expected deadline φ e φ' →
    A φ s → M.act e.1 s e.2 s' → A φ' s'
  guard : ∀ φ o s, (rawProtocol atomic expected deadline).Allows o φ → A φ s → G o s
  again : ∀ s, A .rechecked s → A .polling s

namespace RawAssertion

variable {atomic : WaitableAtomic} {expected : V} {deadline : Option Deadline}
  {A : RawPhase V → σ → Prop} {s : σ}

theorem waitRaw (hA : RawAssertion M G atomic expected deadline A) (strategy : WaitStrategy)
    (hs : A .polling s) :
    wp M G (strategy.waitRaw atomic expected deadline) (fun r s' => A (.returning r) s') s := by
  refine wp_mono ((waitRaw_follows atomic expected deadline strategy).wp hA.stable
    (fun φ op x φ' s s' hn => hA.act φ ⟨op, x⟩ φ' s s' (rawStep_of_next hn)) hA.guard hs) ?_
  rintro r s' ⟨φ, rfl, hφ⟩
  exact hφ

theorem ret (hA : RawAssertion M G atomic expected deadline A) {α : Type} {a : α} {φ : RawPhase V}
    {Q : α → σ → Prop} (hQ : ∀ s, A φ s → Q a s) (hs : A φ s) : wp M G (.ret a) Q s :=
  (hA.stable φ).wp_ret (fun s => hA.guard φ none s (Protocol.allows_none φ)) hQ hs

theorem waitIfEqual (hA : RawAssertion M G atomic expected none A) (strategy : WaitStrategy)
    (hs : A .polling s) :
    wp M G (strategy.waitIfEqual atomic expected) (fun _ s' => ∃ r, A (.returning r) s') s := by
  simp only [WaitStrategy.waitIfEqual, Prog.monad_bind_eq, Prog.pure_eq_ret, waitRawUntimed_eq]
  apply wp_bind
  refine wp_mono (hA.waitRaw strategy hs) fun r s' hr => ?_
  cases r with
  | changed v => exact hA.ret (fun s h => ⟨.changed v, h⟩) hr
  | unclassified => exact hA.ret (fun s h => ⟨.unclassified, h⟩) hr
  | timedOut => exact hA.ret (fun s h => ⟨.timedOut, h⟩) hr

/-- The untimed filtered wait returns only after a raw wait has seen a change. -/
theorem waitUntilDifferent (hA : RawAssertion M G atomic expected none A) (strategy : WaitStrategy)
    (hnone : ∀ s, ¬ A .expired s) (hs : A .polling s) :
    wp M G (strategy.waitUntilDifferent atomic expected) (fun v s' => A (.changed v) s') s := by
  simp only [WaitStrategy.waitUntilDifferent, Prog.monad_bind_eq, Prog.pure_eq_ret,
    waitRawUntimed_eq]
  refine wp_loop (A .polling) (hA.stable _)
    (fun s h => hA.guard .polling none s (Protocol.allows_none _) h) (fun s h => ?_) hs
  apply wp_bind
  refine wp_mono (hA.waitRaw strategy h) fun r s' hr => ?_
  cases r with
  | changed v => exact hA.ret (fun s h => hA.ret (fun _ h => h) h) hr
  | unclassified => exact hA.ret (fun s h => hA.again s h) hr
  | timedOut => exact absurd hr (hnone s')

end RawAssertion

section Timed

variable {atomic : WaitableAtomic} {expected : V} {timeout : ℕ}
  {A : Deadline → RawPhase V → σ → Prop} {P : σ → Prop} {s : σ}

omit [DecidableEq V] in
/-- A timed wait first reads the clock for its deadline. -/
theorem wp_deadlineNew {α : Type} {k : Deadline → WaitProg V α} {Q : α → σ → Prop}
    (hP : Stable M P) (hG : ∀ s, P s → G (some .instantNow) s)
    (hnew : ∀ (now : ℕ) s s', P s → M.act .instantNow s now s' →
      wp M G (k ⟨now, timeout⟩) Q s') (hs : P s) :
    wp M G ((Deadline.new timeout).bind k) Q s := by
  simp only [Deadline.new, Prog.monad_bind_eq, Prog.pure_eq_ret, instantNow_bind, Prog.call_bind,
    Prog.ret_bind]
  exact hP.wp_call hG (fun s now s' hs hact => hnew now s s' hs hact) hs

theorem wp_waitIfEqualTimeout (strategy : WaitStrategy) (hP : Stable M P)
    (hG : ∀ s, P s → G (some .instantNow) s)
    (hA : ∀ d, d.timeout = timeout → RawAssertion M G atomic expected (some d) (A d))
    (hnew : ∀ (now : ℕ) s s', P s → M.act .instantNow s now s' → A ⟨now, timeout⟩ .polling s')
    (hs : P s) :
    wp M G (strategy.waitIfEqualTimeout atomic expected timeout)
      (fun r s' => ∃ d, A d (.returning r) s') s := by
  simp only [WaitStrategy.waitIfEqualTimeout, Prog.monad_bind_eq]
  refine wp_deadlineNew hP hG (fun now s s' hs hact => ?_) hs
  refine wp_mono ((hA ⟨now, timeout⟩ rfl).waitRaw strategy (hnew now s s' hs hact)) ?_
  exact fun r s' h => ⟨_, h⟩

/-- The result of a timed filtered wait as a raw result. -/
def WaitUntilTimeoutResult.toRaw : WaitUntilTimeoutResult V → WaitTimeoutResult V
  | .changed v => .changed v
  | .timedOut => .timedOut

/-- The filtered timed wait keeps an invariant of the raw one, restarted at its own clock reading.
-/
theorem wp_waitUntilDifferentTimeout (strategy : WaitStrategy) (hP : Stable M P)
    (hG : ∀ s, P s → G (some .instantNow) s)
    (hA : ∀ d, d.timeout = timeout → RawAssertion M G atomic expected (some d) (A d))
    (hnew : ∀ (now : ℕ) s s', P s → M.act .instantNow s now s' → A ⟨now, timeout⟩ .polling s')
    (hs : P s) :
    wp M G (strategy.waitUntilDifferentTimeout atomic expected timeout)
      (fun r s' => ∃ d, A d (.returning r.toRaw) s') s := by
  simp only [WaitStrategy.waitUntilDifferentTimeout, Prog.monad_bind_eq, Prog.pure_eq_ret]
  refine wp_deadlineNew hP hG (fun now s₀ s₁ hs₀ hact => ?_) hs
  have hA' := hA ⟨now, timeout⟩ rfl
  refine wp_loop (A ⟨now, timeout⟩ .polling) (hA'.stable _)
    (fun s h => hA'.guard .polling none s (Protocol.allows_none _) h) (fun s h => ?_)
    (hnew now s₀ s₁ hs₀ hact)
  apply wp_bind
  refine wp_mono (hA'.waitRaw strategy h) fun r s' hr => ?_
  cases r with
  | changed v => exact hA'.ret (fun s h => hA'.ret (fun _ h => ⟨_, h⟩) h) hr
  | unclassified => exact hA'.ret (fun s h => hA'.again s h) hr
  | timedOut => exact hA'.ret (fun s h => hA'.ret (fun _ h => ⟨_, h⟩) h) hr

end Timed

end Snoozer
