import Snoozer.FallibleProgram
import Mathlib.Logic.Function.Basic

/-! Several programs that take turns on one shared state. Each of them is checked
alone, against a protocol of its own calls; what the calls do to the state then has to
be looked at one call at a time. -/
namespace Interactive

open Prog Fallible

variable {ρ Op : Type} {Ans : Op → Type} {σ ε α β : Type} {R : ρ → Type} {Φ : ρ → Type}

/-- What the calls of each party do to the shared state, and what changes it besides. -/
structure Parties (ρ Op : Type) (Ans : Op → Type) (σ : Type) where
  act : ρ → (op : Op) → σ → Ans op → σ → Prop
  env : σ → σ → Prop

/-- Where every party is. -/
abbrev Pool (ρ Op : Type) (Ans : Op → Type) (R : ρ → Type) := (r : ρ) → Prog Op Ans (R r)

namespace Parties

variable (S : Parties ρ Op Ans σ)

/-- The shared state as one party's machine. -/
def machine (r : ρ) : Machine Op Ans σ where
  act := S.act r
  env _ _ := False

/-- Only the steps to states with `C`. -/
def restrict (C : σ → Prop) : Parties ρ Op Ans σ where
  act r op s x s' := S.act r op s x s' ∧ C s'
  env s s' := S.env s s' ∧ C s'

end Parties

/-- One step of one party, or a change from outside. -/
inductive PoolStep [DecidableEq ρ] (S : Parties ρ Op Ans σ) :
    Pool ρ Op Ans R × σ → Pool ρ Op Ans R × σ → Prop where
  | move {c : Pool ρ Op Ans R} {s s' : σ} (r : ρ) {p : Prog Op Ans (R r)} :
      Step (S.machine r) (c r, s) (p, s') → PoolStep S (c, s) (Function.update c r p, s')
  | env {c : Pool ρ Op Ans R} {s s' : σ} : S.env s s' → PoolStep S (c, s) (c, s')

theorem PoolStep.call [DecidableEq ρ] {S : Parties ρ Op Ans σ} {c : Pool ρ Op Ans R} {s s' : σ}
    {r : ρ} {op : Op} {k : Ans op → Prog Op Ans (R r)} {x : Ans op} {p : Prog Op Ans (R r)}
    (hc : c r = .call op k) (hact : S.act r op s x s') (hp : k x = p) :
    PoolStep S (c, s) (Function.update c r p, s') := by
  apply PoolStep.move
  rw [hc, ← hp]
  exact .call hact

/-- Any interleaving of any length. -/
abbrev PoolReach [DecidableEq ρ] (S : Parties ρ Op Ans σ) :
    Pool ρ Op Ans R × σ → Pool ρ Op Ans R × σ → Prop :=
  Relation.ReflTransGen (PoolStep S)

variable [DecidableEq ρ] {S : Parties ρ Op Ans σ}

/-- One party alone takes any number of steps. -/
theorem PoolReach.party {r : ρ} {p : Prog Op Ans (R r)} {s s' : σ} {c : Pool ρ Op Ans R}
    (h : Reach (S.machine r) (c r, s) (p, s')) :
    PoolReach S (c, s) (Function.update c r p, s') := by
  generalize hq : (p, s') = q at h
  induction h generalizing p s' with
  | refl =>
    cases hq
    rw [Function.update_eq_self]
  | @tail c₁ c₂ _ hstep ih =>
    cases hq
    have hmove : PoolStep S (Function.update c r c₁.1, c₁.2)
        (Function.update (Function.update c r c₁.1) r p, s') := by
      apply PoolStep.move
      rw [Function.update_self]
      exact hstep
    rw [Function.update_idem] at hmove
    exact (ih rfl).tail hmove

/-- Where each party obeys its protocol and each permitted call keeps `J`, every state
that is reached has phases with `J`, and every party has got to its phase by its own calls. -/
theorem PoolReach.tracked {N : (r : ρ) → Protocol Op Ans (Φ r)} {p : Pool ρ Op Ans R}
    {φ : (r : ρ) → Φ r} {F : (r : ρ) → R r → Φ r → Prop} {s : σ}
    (hp : ∀ r, (N r).Follows (p r) (φ r) (F r)) {J : ((r : ρ) → Φ r) → σ → Prop} (hs : J φ s)
    (hact : ∀ r φ op x φ' s s', J φ s → (N r).next (φ r) op x = some φ' → S.act r op s x s' →
      J (Function.update φ r φ') s')
    (henv : ∀ φ s s', J φ s → S.env s s' → J φ s') {c : Pool ρ Op Ans R × σ}
    (hr : PoolReach S (p, s) c) :
    ∃ φ' : (r : ρ) → Φ r, J φ' c.2 ∧ ∀ r, Reach (N r).machine (p r, φ r) (c.1 r, φ' r) := by
  induction hr with
  | refl => exact ⟨φ, hs, fun r => .refl⟩
  | tail _ hstep ih =>
    obtain ⟨φ', hJ, hreach⟩ := ih
    cases hstep with
    | env he => exact ⟨φ', henv _ _ _ hJ he, hreach⟩
    | @move c t t' r q hmove =>
      -- Only the party that moved has a new phase.
      have key : ∃ φ'' : Φ r, J (Function.update φ' r φ'') t' ∧
          Reach (N r).machine (p r, φ r) (q, φ'') := by
        have hat : Reach (N r).machine (p r, φ r) (c r, φ' r) := hreach r
        generalize hc : c r = pr at hat hmove
        cases hmove with
        | @call op k x _ _ hcall =>
          obtain ⟨φ'', hn⟩ := Option.isSome_iff_exists.mp ((hp r _ _ hat).1 op rfl x)
          exact ⟨φ'', hact r _ _ _ _ _ _ hJ hn hcall, hat.tail (.call hn)⟩
        | loop =>
          refine ⟨φ' r, ?_, hat.tail .loop⟩
          rw [Function.update_eq_self]
          exact hJ
        | env he => exact he.elim
      obtain ⟨φ'', hJ', hat⟩ := key
      refine ⟨Function.update φ' r φ'', hJ', fun r' => ?_⟩
      by_cases hr' : r' = r
      · subst hr'
        simpa only [Function.update_self] using hat
      · simpa only [Function.update_of_ne hr'] using hreach r'

/-- Every party is then where its phase says. -/
theorem PoolReach.phases {N : (r : ρ) → Protocol Op Ans (Φ r)} {p : Pool ρ Op Ans R}
    {φ : (r : ρ) → Φ r} {F : (r : ρ) → R r → Φ r → Prop} {s : σ}
    (hp : ∀ r, (N r).Follows (p r) (φ r) (F r)) {J : ((r : ρ) → Φ r) → σ → Prop} (hs : J φ s)
    (hact : ∀ r φ op x φ' s s', J φ s → (N r).next (φ r) op x = some φ' → S.act r op s x s' →
      J (Function.update φ r φ') s')
    (henv : ∀ φ s s', J φ s → S.env s s' → J φ s') {c : Pool ρ Op Ans R × σ}
    (hr : PoolReach S (p, s) c) :
    ∃ φ' : (r : ρ) → Φ r, J φ' c.2 ∧ ∀ r, (N r).Allows (c.1 r).head (φ' r) ∧
      ∀ a, c.1 r = .ret a → F r a (φ' r) := by
  obtain ⟨φ', hJ, hreach⟩ := hr.tracked hp hs hact henv
  exact ⟨φ', hJ, fun r => hp r _ _ (hreach r)⟩

/-- Whatever its calls are answered, the program returns a value with `Q` within `n` steps,
and does not get stuck before. -/
def Settles (M : Machine Op Ans σ) (Q : α → Prop) : ℕ → Prog Op Ans α → σ → Prop
  | 0, p, _ => ∃ a, p = .ret a ∧ Q a
  | n + 1, p, s => (∃ a, p = .ret a ∧ Q a) ∨
      (∃ c, Step M (p, s) c) ∧ ∀ p' s', Step M (p, s) (p', s') → Settles M Q n p' s'

section Settles

variable {M : Machine Op Ans σ} {Q : α → Prop} {n : ℕ} {s : σ}

theorem settles_ret {a : α} (ha : Q a) : Settles M Q n (.ret a) s := by
  cases n with
  | zero => exact ⟨a, rfl, ha⟩
  | succ n => exact Or.inl ⟨a, rfl, ha⟩

theorem settles_call (hM : ∀ s s', ¬ M.env s s') {op : Op} {k : Ans op → Prog Op Ans α}
    (hanswer : ∃ x s', M.act op s x s')
    (h : ∀ x s', M.act op s x s' → Settles M Q n (k x) s') : Settles M Q (n + 1) (.call op k) s := by
  obtain ⟨x, s', hact⟩ := hanswer
  refine Or.inr ⟨⟨_, .call hact⟩, fun p' s'' hstep => ?_⟩
  cases hstep with
  | call hact => exact h _ _ hact
  | env he => exact absurd he (hM _ _)

theorem settles_loop (hM : ∀ s s', ¬ M.env s s') {body : Prog Op Ans (Option β)}
    {k : β → Prog Op Ans α} (h : Settles M Q n (body.bind (again body k)) s) :
    Settles M Q (n + 1) (.loop body k) s := by
  refine Or.inr ⟨⟨_, .loop⟩, fun p' s'' hstep => ?_⟩
  cases hstep with
  | loop => exact h
  | env he => exact absurd he (hM _ _)

theorem Settles.mono {p : Prog Op Ans α} (h : Settles M Q n p s) : Settles M Q (n + 1) p s := by
  induction n generalizing p s with
  | zero => exact Or.inl h
  | succ n ih =>
    rcases h with h | ⟨hstep, h⟩
    · exact Or.inl h
    · exact Or.inr ⟨hstep, fun p' s' hs => ih (h p' s' hs)⟩

end Settles

namespace Protocol

variable {Φ : Type} (N : Protocol Op Ans Φ)

/-- From a phase with `P` the program obeys the protocol, a run that returns `a` ends in
a phase with `A a`, and one that fails with `e` in a phase with `B e`. -/
def Obeys (P : Φ → Prop) (p : Fallible Op Ans ε α) (A : α → Φ → Prop) (B : ε → Φ → Prop) : Prop :=
  ∀ φ, P φ → N.Follows p.run φ (Ends A B)

variable {N} {P : Φ → Prop} {A : α → Φ → Prop} {B : ε → Φ → Prop}

theorem obeys_pure {a : α} (h : ∀ φ, P φ → A a φ) :
    N.Obeys P (pure a : Fallible Op Ans ε α) A B :=
  fun φ hφ => follows_ret (h φ hφ)

theorem obeys_throw {e : ε} (h : ∀ φ, P φ → B e φ) :
    N.Obeys P (throw e : Fallible Op Ans ε α) A B :=
  fun φ hφ => follows_ret (h φ hφ)

theorem obeys_ask {op : Op} {A : Ans op → Φ → Prop}
    (h : ∀ φ x, P φ → ∃ φ', N.next φ op x = some φ' ∧ A x φ') :
    N.Obeys P (ask op : Fallible Op Ans ε (Ans op)) A B := by
  intro φ hφ
  apply follows_call
  intro x
  obtain ⟨φ', hn, hA⟩ := h φ x hφ
  exact ⟨φ', hn, follows_ret hA⟩

variable (N) in
/-- The protocol takes no notice of the call. -/
def Ignores (op : Op) : Prop := ∀ φ x, N.next φ op x = some φ

theorem obeys_ignored {op : Op} (hop : N.Ignores op) :
    N.Obeys P (ask op : Fallible Op Ans ε (Ans op)) (fun _ => P) B :=
  obeys_ask fun φ x hφ => ⟨φ, hop φ x, hφ⟩

theorem Obeys.bind {p : Fallible Op Ans ε α} {f : α → Fallible Op Ans ε β} {C : β → Φ → Prop}
    (hp : N.Obeys P p A B) (hf : ∀ a, N.Obeys (A a) (f a) C B) : N.Obeys P (p >>= f) C B := by
  intro φ hφ
  apply follows_bind
  apply follows_mono (hp φ hφ)
  rintro (e | a) φ' hr
  · exact follows_ret hr
  · exact hf a φ' hr

theorem Obeys.conseq {P' : Φ → Prop} {A' : α → Φ → Prop} {B' : ε → Φ → Prop}
    {p : Fallible Op Ans ε α} (h : N.Obeys P p A B) (hP : ∀ φ, P' φ → P φ)
    (hA : ∀ a φ, A a φ → A' a φ) (hB : ∀ e φ, B e φ → B' e φ) : N.Obeys P' p A' B' := by
  intro φ hφ
  apply follows_mono (h φ (hP φ hφ))
  rintro (e | a) φ' hr
  · exact hB e φ' hr
  · exact hA a φ' hr

theorem obeys_of_phase {p : Fallible Op Ans ε α} (h : ∀ φ, P φ → N.Obeys (· = φ) p A B) :
    N.Obeys P p A B :=
  fun φ hφ => h φ hφ φ rfl

theorem Obeys.attempt {p : Fallible Op Ans ε α} {C : Except ε α → Φ → Prop} {B' : ε → Φ → Prop}
    (h : N.Obeys P p (fun a => C (.ok a)) fun e => C (.error e)) :
    N.Obeys P (Fallible.attempt p) C B' := by
  intro φ hφ
  apply follows_bind
  apply follows_mono (h φ hφ)
  rintro (e | a) φ' hr
  · exact follows_ret hr
  · exact follows_ret hr

theorem obeys_ite {c : Prop} [Decidable c] {p q : Fallible Op Ans ε α}
    (hp : c → N.Obeys P p A B) (hq : ¬ c → N.Obeys P q A B) :
    N.Obeys P (if c then p else q) A B := by
  split
  · next h => exact hp h
  · next h => exact hq h

/-- A loop keeps what every round keeps. -/
theorem Obeys.iterate {body : Fallible Op Ans ε (Option α)}
    (h : N.Obeys P body (fun o φ => (o = none → P φ) ∧ ∀ a, o = some a → A a φ) B) :
    N.Obeys P (Fallible.iterate body) A B := by
  intro φ hφ
  apply wp_loop P (N.closed.stable P) (fun φ _ => allows_none φ)
  · intro φ' hφ'
    apply follows_bind
    apply follows_mono (h φ' hφ')
    rintro (e | _ | a) φ'' hr
    · exact follows_ret (follows_ret hr)
    · exact follows_ret (hr.1 rfl)
    · exact follows_ret (follows_ret (hr.2 a rfl))
  · exact hφ

/-- A program without loops whose calls all keep `P` keeps it. -/
theorem obeys_within {T : Op → Prop}
    (hT : ∀ op φ x, T op → P φ → ∃ φ', N.next φ op x = some φ' ∧ P φ') {p : Fallible Op Ans ε α}
    (hp : Fallible.Within T p) : N.Obeys P p (fun _ => P) fun _ => P := by
  suffices key : ∀ {γ : Type} (q : Prog Op Ans γ), q.Within T → ∀ φ, P φ →
      N.Follows q φ fun _ φ' => P φ' by
    intro φ hφ
    apply follows_mono (key p.run hp φ hφ)
    rintro (e | a) φ' hr
    · exact hr
    · exact hr
  intro γ q hq
  induction q with
  | ret a => exact fun φ hφ => follows_ret hφ
  | call op k ih =>
    intro φ hφ
    apply follows_call
    intro x
    obtain ⟨φ', hn, hφ'⟩ := hT op φ x hq.1 hφ
    exact ⟨φ', hn, ih x (hq.2 x) φ' hφ'⟩
  | loop body k => exact hq.elim

/-- Two protocols that agree on the calls of a program without loops are obeyed alike. -/
theorem Obeys.agree {N' : Protocol Op Ans Φ} {T : Op → Prop}
    (hT : ∀ op φ x, T op → N'.next φ op x = N.next φ op x) {p : Fallible Op Ans ε α}
    (hp : Fallible.Within T p) (h : N.Obeys P p A B) : N'.Obeys P p A B := by
  suffices key : ∀ {γ : Type} (q : Prog Op Ans γ), q.Within T → ∀ φ (F : γ → Φ → Prop),
      N.Follows q φ F → N'.Follows q φ F from fun φ hφ => key p.run hp φ _ (h φ hφ)
  intro γ q hq
  induction q with
  | ret a => exact fun φ F hN => follows_ret ((hN _ _ .refl).2 a rfl)
  | call op k ih =>
    intro φ F hN
    apply follows_call
    intro x
    obtain ⟨φ', hn⟩ := Option.isSome_iff_exists.mp ((hN _ _ .refl).1 op rfl x)
    exact ⟨φ', (hT op φ x hq.1).trans hn,
      ih x (hq.2 x) φ' F fun q φ'' hr => hN q φ'' (.head (.call hn) hr)⟩
  | loop body k => exact hq.elim

/-- A program whose calls all keep `P`, those in its loops too, keeps it. -/
theorem follows_makes {T : Op → Prop}
    (hT : ∀ op φ x, T op → P φ → ∃ φ', N.next φ op x = some φ' ∧ P φ') {p : Prog Op Ans α}
    (hp : p.Makes T) {φ : Φ} (hφ : P φ) : N.Follows p φ fun _ φ' => P φ' := by
  induction p generalizing φ with
  | ret a => exact follows_ret hφ
  | call op k ih =>
    apply follows_call
    intro x
    obtain ⟨φ', hn, hφ'⟩ := hT op φ x hp.1 hφ
    exact ⟨φ', hn, ih x (hp.2 x) hφ'⟩
  | loop body k ihbody ih =>
    apply wp_loop P (N.closed.stable P) (fun φ _ => allows_none φ)
    · intro φ' hφ'
      apply follows_mono (ihbody hp.1 hφ')
      intro o φ'' hφ''
      cases o with
      | none => exact hφ''
      | some b => exact ih b (hp.2 b) hφ''
    · exact hφ

theorem obeys_makes {T : Op → Prop}
    (hT : ∀ op φ x, T op → P φ → ∃ φ', N.next φ op x = some φ' ∧ P φ') {p : Fallible Op Ans ε α}
    (hp : Fallible.Makes T p) : N.Obeys P p (fun _ => P) fun _ => P := by
  intro φ hφ
  apply follows_mono (follows_makes hT hp hφ)
  rintro (e | a) φ' hr
  · exact hr
  · exact hr

/-- What a program returns whatever it is answered. -/
theorem Obeys.gives {p : Fallible Op Ans ε α} {R : α → Prop} (h : N.Obeys P p A B)
    (hR : Fallible.Gives R p) : N.Obeys P p (fun a φ => A a φ ∧ R a) B := by
  intro φ hφ q φ' hr
  obtain ⟨hallows, hends⟩ := h φ hφ q φ' hr
  refine ⟨hallows, fun r hret => ?_⟩
  have hgives := Prog.Gives.reach hR hr
  dsimp only at hgives
  rw [hret] at hgives
  cases r with
  | ok a => exact ⟨hends _ hret, hgives a rfl⟩
  | error e => exact hends _ hret

/-- The same with another program in the place of each call. -/
theorem obeys_expand_within {Op' : Type} {Ans' : Op' → Type} {T : Op' → Prop}
    {h : (op : Op') → Prog Op Ans (Ans' op)}
    (hT : ∀ op φ, T op → P φ → N.Follows (h op) φ fun _ φ' => P φ') {p : Fallible Op' Ans' ε α}
    (hp : Fallible.Within T p) : N.Obeys P (expand h p) (fun _ => P) fun _ => P := by
  suffices key : ∀ {γ : Type} (q : Prog Op' Ans' γ), q.Within T → ∀ φ, P φ →
      N.Follows (q.handle h) φ fun _ φ' => P φ' by
    intro φ hφ
    apply follows_mono (key p.run hp φ hφ)
    rintro (e | a) φ' hr
    · exact hr
    · exact hr
  intro γ q hq
  induction q with
  | ret a => exact fun φ hφ => follows_ret hφ
  | call op k ih =>
    intro φ hφ
    apply follows_bind
    exact follows_mono (hT op φ hq.1 hφ) fun x φ' hφ' => ih x (hq.2 x) φ' hφ'
  | loop body k => exact hq.elim

/-- Another program may run in the place of each call that the protocol permits, if it
obeys a protocol whose phases follow the first one's. -/
theorem Follows.handle {Op' Ψ : Type} {Ans' : Op' → Type} {N' : Protocol Op' Ans' Ψ}
    {h : (op : Op) → Prog Op' Ans' (Ans op)} {Q : Φ → Ψ → Prop}
    (hh : ∀ φ ψ op, Q φ ψ → N.Allows (some op) φ → N'.Follows (h op) ψ fun x ψ' =>
      ∃ φ', N.next φ op x = some φ' ∧ Q φ' ψ')
    {p : Prog Op Ans α} (hloop : p.LoopFree) {φ : Φ} {F : α → Φ → Prop} (hp : N.Follows p φ F)
    {ψ : Ψ} (hQ : Q φ ψ) :
    N'.Follows (p.handle h) ψ fun a ψ' => ∃ φ', F a φ' ∧ Q φ' ψ' := by
  induction p generalizing φ ψ with
  | ret a => exact follows_ret ⟨φ, (hp _ _ .refl).2 a rfl, hQ⟩
  | call op k ih =>
    apply follows_bind
    apply follows_mono (hh φ ψ op hQ (hp _ _ .refl).1)
    intro x ψ' hx
    obtain ⟨φ', hn, hQ'⟩ := hx
    exact ih x (hloop x) (fun q φ'' hr => hp q φ'' (.head (.call hn) hr)) hQ'
  | loop body k => exact hloop.elim

/-- Two protocols at once. -/
def both {Ψ : Type} (N : Protocol Op Ans Φ) (N' : Protocol Op Ans Ψ) : Protocol Op Ans (Φ × Ψ) where
  next φ op x := (N.next φ.1 op x).bind fun φ₁ => (N'.next φ.2 op x).map fun φ₂ => (φ₁, φ₂)

/-- Two protocols take a step together when each takes it. -/
theorem both_next {Ψ : Type} {N' : Protocol Op Ans Ψ} {φ φ' : Φ × Ψ} {op : Op} {x : Ans op} :
    (N.both N').next φ op x = some φ' ↔
      N.next φ.1 op x = some φ'.1 ∧ N'.next φ.2 op x = some φ'.2 := by
  obtain ⟨φ₁, φ₂⟩ := φ'
  constructor
  · intro h
    obtain ⟨ψ₁, h₁, h⟩ := Option.bind_eq_some_iff.mp h
    obtain ⟨ψ₂, h₂, h⟩ := Option.map_eq_some_iff.mp h
    cases h
    exact ⟨h₁, h₂⟩
  · rintro ⟨h₁, h₂⟩
    simp only [both, h₁, h₂, Option.bind_some, Option.map_some]

/-- A program that follows two protocols follows both at once. -/
theorem Follows.both {Ψ : Type} {N' : Protocol Op Ans Ψ} {p : Prog Op Ans α} {φ : Φ} {ψ : Ψ}
    {F : α → Φ → Prop} {F' : α → Ψ → Prop} (h : N.Follows p φ F) (h' : N'.Follows p ψ F') :
    (N.both N').Follows p (φ, ψ) fun a φ' => F a φ'.1 ∧ F' a φ'.2 := by
  have hsplit : ∀ c, Reach (N.both N').machine (p, (φ, ψ)) c →
      Reach N.machine (p, φ) (c.1, c.2.1) ∧ Reach N'.machine (p, ψ) (c.1, c.2.2) := by
    intro c hr
    induction hr with
    | refl => exact ⟨.refl, .refl⟩
    | tail _ hstep ih =>
      cases hstep with
      | call hact =>
        obtain ⟨h₁, h₂⟩ := both_next.mp hact
        exact ⟨ih.1.tail (.call h₁), ih.2.tail (.call h₂)⟩
      | loop => exact ⟨ih.1.tail .loop, ih.2.tail .loop⟩
      | env he => exact he.elim
  intro q φ' hr
  obtain ⟨h₁, h₂⟩ := hsplit _ hr
  refine ⟨fun op hop x => ?_, fun a ha => ⟨(h _ _ h₁).2 a ha, (h' _ _ h₂).2 a ha⟩⟩
  obtain ⟨φ₁, hn₁⟩ := Option.isSome_iff_exists.mp ((h _ _ h₁).1 op hop x)
  obtain ⟨φ₂, hn₂⟩ := Option.isSome_iff_exists.mp ((h' _ _ h₂).1 op hop x)
  have hnext : (N.both N').next φ' op x = some (φ₁, φ₂) := both_next.mpr ⟨hn₁, hn₂⟩
  rw [hnext]
  rfl

end Protocol

section Expand

variable {Op' : Type} {Ans' : Op' → Type} (h : (op : Op) → Prog Op' Ans' (Ans op))

@[simp] theorem expand_pure (a : α) :
    expand h (pure a : Fallible Op Ans ε α) = pure a := rfl

@[simp] theorem expand_throw (e : ε) :
    expand h (throw e : Fallible Op Ans ε α) = throw e := rfl

/-- Expanding a sequence expands its parts. -/
theorem expand_bind (p : Fallible Op Ans ε α) (f : α → Fallible Op Ans ε β) :
    expand h (p >>= f) = expand h p >>= fun a => expand h (f a) := by
  have hcont : (fun r => (ExceptT.bindCont f r : Prog Op Ans (Except ε β)).handle h) =
      ExceptT.bindCont fun a => expand h (f a) := by
    funext r
    cases r with
    | ok a => rfl
    | error e => rfl
  calc expand h (p >>= f)
      = (p.run.handle h).bind fun r => (ExceptT.bindCont f r : Prog Op Ans _).handle h :=
        handle_bind h p.run _
    _ = expand h p >>= fun a => expand h (f a) := by
        rw [hcont]
        rfl

theorem expand_ask (op : Op) :
    expand h (ask op : Fallible Op Ans ε (Ans op)) = ExceptT.lift (h op) := by
  change ((perform op).bind fun x => ret (Except.ok x)).handle h = _
  rw [handle_bind]
  change ((h op).bind ret).bind _ = _
  rw [bind_ret]
  rfl

end Expand

/-- Answers to calls; some calls may have to wait. -/
abbrev Server (Op : Type) (Ans : Op → Type) (σ : Type) := (op : Op) → σ → Option (Ans op × σ)

/-- A server that lets calls wait which would lead out of `C`. -/
def Server.only (h : Server Op Ans σ) (C : σ → Prop) [DecidablePred C] : Server Op Ans σ :=
  fun op s => (h op s).filter fun answer => C answer.2

theorem Server.only_eq_some {h : Server Op Ans σ} {C : σ → Prop} [DecidablePred C] {op : Op}
    {s s' : σ} {x : Ans op} (hx : h.only C op s = some (x, s')) :
    h op s = some (x, s') ∧ C s' := by
  unfold Server.only at hx
  rw [Option.filter_eq_some_iff] at hx
  exact ⟨hx.1, by simpa using hx.2⟩

/-- Up to `n` steps of a program against a server. -/
def Prog.advance (h : Server Op Ans σ) : ℕ → Prog Op Ans α → σ → Prog Op Ans α × σ
  | 0, p, s => (p, s)
  | _ + 1, .ret a, s => (.ret a, s)
  | n + 1, .call op k, s => match h op s with
    | some (x, s') => (k x).advance h n s'
    | none => (.call op k, s)
  | n + 1, .loop body k, s => (body.bind (again body k)).advance h n s

/-- The parties in turn, each for a number of steps. -/
def Pool.play (h : ρ → Server Op Ans σ) :
    List (ρ × ℕ) → Pool ρ Op Ans R × σ → Pool ρ Op Ans R × σ
  | [], c => c
  | (r, n) :: rest, (c, s) =>
    let moved := (c r).advance (h r) n s
    play h rest (Function.update c r moved.1, moved.2)

variable {h : ρ → Server Op Ans σ} {I : σ → Prop}

/-- Servers that keep `I` and whose answers are possible under it produce interleavings. -/
theorem Pool.play_reach
    (hact : ∀ r op s x s', I s → h r op s = some (x, s') → S.act r op s x s' ∧ I s')
    (schedule : List (ρ × ℕ)) (c : Pool ρ Op Ans R) (s : σ) (hs : I s) :
    PoolReach S (c, s) (Pool.play h schedule (c, s)) ∧ I (Pool.play h schedule (c, s)).2 := by
  have hadvance : ∀ (n : ℕ) (c : Pool ρ Op Ans R) (s : σ) (r : ρ), I s →
      PoolReach S (c, s) (Function.update c r ((c r).advance (h r) n s).1,
        ((c r).advance (h r) n s).2) ∧ I ((c r).advance (h r) n s).2 := by
    intro n
    induction n with
    | zero =>
      intro c s r hs
      simp only [Prog.advance, Function.update_eq_self]
      exact ⟨.refl, hs⟩
    | succ n ih =>
      intro c s r hs
      cases hc : c r with
      | ret a =>
        simp only [Prog.advance, ← hc, Function.update_eq_self]
        exact ⟨.refl, hs⟩
      | call op k =>
        cases hx : h r op s with
        | none =>
          simp only [Prog.advance, hx, ← hc, Function.update_eq_self]
          exact ⟨.refl, hs⟩
        | some answer =>
          obtain ⟨x, s'⟩ := answer
          obtain ⟨hcall, hs'⟩ := hact r op s x s' hs hx
          have hstep : PoolStep S (c, s) (Function.update c r (k x), s') := by
            apply PoolStep.move
            rw [hc]
            exact .call hcall
          have hrest := ih (Function.update c r (k x)) s' r hs'
          simp only [Function.update_self, Function.update_idem] at hrest
          simp only [Prog.advance, hx]
          exact ⟨.head hstep hrest.1, hrest.2⟩
      | loop body k =>
        have hstep : PoolStep S (c, s) (Function.update c r (body.bind (again body k)), s) := by
          apply PoolStep.move
          rw [hc]
          exact .loop
        have hrest := ih (Function.update c r (body.bind (again body k))) s r hs
        simp only [Function.update_self, Function.update_idem] at hrest
        exact ⟨.head hstep hrest.1, hrest.2⟩
  induction schedule generalizing c s with
  | nil => exact ⟨.refl, hs⟩
  | cons turn rest ih =>
    obtain ⟨r, n⟩ := turn
    obtain ⟨hreach, hs'⟩ := hadvance n c s r hs
    obtain ⟨hrest, hI⟩ := ih (Function.update c r ((c r).advance (h r) n s).1) _ hs'
    exact ⟨hreach.trans hrest, hI⟩

end Interactive
