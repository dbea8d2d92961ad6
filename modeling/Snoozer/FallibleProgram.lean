import Snoozer.ProgramLogic

/-! Programs that may fail, as `ExceptT` over interactive programs, with Hoare
triples that carry an invariant through every point of every run. The rules are
for machines without an environment; `absorb` turns any machine into one. -/
namespace Interactive

open Prog

variable {Op : Type} {Ans : Op → Type} {σ ε α β : Type} {M : Machine Op Ans σ}

abbrev Fallible (Op : Type) (Ans : Op → Type) (ε : Type) := ExceptT ε (Prog Op Ans)

namespace Fallible

/-- One call, whatever its answer. -/
def ask (op : Op) : Fallible Op Ans ε (Ans op) := ExceptT.lift (perform op)

/-- Run a program and hand its result, good or bad, to what follows. -/
def attempt (p : Fallible Op Ans ε α) : Fallible Op Ans ε (Except ε α) := ExceptT.lift p.run

/-- Repeat a program until it returns a value or fails. -/
def iterate (body : Fallible Op Ans ε (Option α)) : Fallible Op Ans ε α :=
  ExceptT.mk (Prog.loop (body.run.bind fun
    | .ok none => ret none
    | .ok (some a) => ret (some (.ok a))
    | .error e => ret (some (.error e))) ret)

/-- Run another program in the place of each call. -/
def expand {Op' : Type} {Ans' : Op' → Type} (h : (op : Op) → Prog Op' Ans' (Ans op))
    (p : Fallible Op Ans ε α) : Fallible Op' Ans' ε α := ExceptT.mk (p.run.handle h)

/-- No unbounded loop, and every call is one of `S`. -/
def Within (S : Op → Prop) (p : Fallible Op Ans ε α) : Prop := Prog.Within S p.run

section Within

variable {S : Op → Prop}

theorem within_pure (a : α) : Within S (pure a : Fallible Op Ans ε α) := trivial

theorem within_throw (e : ε) : Within S (throw e : Fallible Op Ans ε α) := trivial

theorem within_ask {op : Op} (hop : S op) : Within S (ask op : Fallible Op Ans ε (Ans op)) :=
  ⟨hop, fun _ => trivial⟩

theorem Within.bind {p : Fallible Op Ans ε α} {f : α → Fallible Op Ans ε β} (hp : Within S p)
    (hf : ∀ a, Within S (f a)) : Within S (p >>= f) := by
  refine Prog.Within.bind hp fun r => ?_
  cases r with
  | ok a => exact hf a
  | error e => trivial

/-- Every value that the program can return has `R`. -/
def Gives (R : α → Prop) (p : Fallible Op Ans ε α) : Prop :=
  p.run.Gives fun r => ∀ a, r = .ok a → R a

theorem gives_pure {R : α → Prop} {a : α} (h : R a) : Gives R (pure a : Fallible Op Ans ε α) := by
  rintro _ ⟨⟩
  exact h

theorem gives_throw {R : α → Prop} (e : ε) : Gives R (throw e : Fallible Op Ans ε α) :=
  fun _ h => nomatch h

theorem gives_ite {R : α → Prop} {c : Prop} [Decidable c] {p q : Fallible Op Ans ε α}
    (hp : c → Gives R p) (hq : ¬ c → Gives R q) : Gives R (if c then p else q) := by
  split
  · next h => exact hp h
  · next h => exact hq h

theorem gives_bind {R : β → Prop} {p : Fallible Op Ans ε α} {f : α → Fallible Op Ans ε β}
    (hf : ∀ a, Gives R (f a)) : Gives R (p >>= f) := by
  have key : ∀ r : Except ε α, (ExceptT.bindCont f r : Prog Op Ans (Except ε β)).Gives
      fun r => ∀ b, r = .ok b → R b := by
    intro r
    cases r with
    | ok a => exact hf a
    | error e => exact fun _ h => nomatch h
  exact p.run.gives_true.bind fun r _ => key r

/-- Every error that the program can return has `E`. -/
def Throws (E : ε → Prop) (p : Fallible Op Ans ε α) : Prop :=
  p.run.Gives fun r => ∀ e, r = .error e → E e

theorem throws_pure {E : ε → Prop} (a : α) : Throws E (pure a : Fallible Op Ans ε α) :=
  fun _ h => nomatch h

theorem throws_throw {E : ε → Prop} {e : ε} (h : E e) :
    Throws E (throw e : Fallible Op Ans ε α) := by
  rintro _ ⟨⟩
  exact h

theorem throws_lift {E : ε → Prop} (p : Prog Op Ans α) :
    Throws E (ExceptT.lift p : Fallible Op Ans ε α) :=
  p.gives_true.bind fun _ _ _ h => nomatch h

theorem throws_bind {E : ε → Prop} {p : Fallible Op Ans ε α} {f : α → Fallible Op Ans ε β}
    (hp : Throws E p) (hf : ∀ a, Throws E (f a)) : Throws E (p >>= f) := by
  apply Prog.Gives.bind hp
  intro r hr
  cases r with
  | ok a => exact hf a
  | error e =>
    rintro _ ⟨⟩
    exact hr e rfl

theorem throws_ite {E : ε → Prop} {c : Prop} [Decidable c] {p q : Fallible Op Ans ε α}
    (hp : Throws E p) (hq : Throws E q) : Throws E (if c then p else q) := by
  split
  · exact hp
  · exact hq

theorem Within.bind_gives {R : α → Prop} {p : Fallible Op Ans ε α} {f : α → Fallible Op Ans ε β}
    (hp : Within S p) (hR : Gives R p) (hf : ∀ a, R a → Within S (f a)) : Within S (p >>= f) := by
  refine Prog.Within.bind_gives hp hR fun r hr => ?_
  cases r with
  | ok a => exact hf a (hr a rfl)
  | error e => trivial

theorem Within.mono {T : Op → Prop} {p : Fallible Op Ans ε α} (hp : Within S p)
    (hST : ∀ op, S op → T op) : Within T p :=
  Prog.Within.mono hST hp

theorem Within.attempt {p : Fallible Op Ans ε α} (hp : Within S p) : Within S (attempt p) :=
  Prog.Within.bind hp fun _ => trivial

theorem Within.ite {c : Prop} [Decidable c] {p q : Fallible Op Ans ε α} (hp : Within S p)
    (hq : Within S q) : Within S (if c then p else q) := by
  split
  · exact hp
  · exact hq

end Within

/-- Every call, in loops too, is one of `S`. -/
def Makes (S : Op → Prop) (p : Fallible Op Ans ε α) : Prop := Prog.Makes S p.run

section Makes

variable {S : Op → Prop}

theorem makes_pure (a : α) : Makes S (pure a : Fallible Op Ans ε α) := trivial

theorem makes_throw (e : ε) : Makes S (throw e : Fallible Op Ans ε α) := trivial

theorem makes_ask {op : Op} (hop : S op) : Makes S (ask op : Fallible Op Ans ε (Ans op)) :=
  ⟨hop, fun _ => trivial⟩

theorem Makes.bind {p : Fallible Op Ans ε α} {f : α → Fallible Op Ans ε β} (hp : Makes S p)
    (hf : ∀ a, Makes S (f a)) : Makes S (p >>= f) := by
  apply Prog.Makes.bind hp
  intro r
  cases r with
  | ok a => exact hf a
  | error e => trivial

theorem Makes.ite {c : Prop} [Decidable c] {p q : Fallible Op Ans ε α} (hp : Makes S p)
    (hq : Makes S q) : Makes S (if c then p else q) := by
  split
  · exact hp
  · exact hq

theorem Makes.iterate {body : Fallible Op Ans ε (Option α)} (hp : Makes S body) :
    Makes S (iterate body) := by
  refine ⟨Prog.Makes.bind hp fun r => ?_, fun _ => trivial⟩
  rcases r with e | _ | a
  · trivial
  · trivial
  · trivial

end Makes

end Fallible

open Fallible

/-- A result and the state it was reached in. -/
def Ends (A : α → σ → Prop) (B : ε → σ → Prop) : Except ε α → σ → Prop
  | .ok a, s => A a s
  | .error e, s => B e s

/-- From a state with `I` and `P`, the invariant `I` holds at every point of every
run, a run that returns `a` ends with `A a`, and one that fails with `e` ends with `B e`. -/
def Triple (M : Machine Op Ans σ) (I P : σ → Prop) (p : Fallible Op Ans ε α) (A : α → σ → Prop)
    (B : ε → σ → Prop) : Prop :=
  ∀ s, I s → P s → wp M (fun _ s => I s) p.run (Ends A B) s

theorem wp_guard {G : Option Op → σ → Prop} {p : Prog Op Ans α} {Q : α → σ → Prop} {s : σ}
    (h : wp M G p Q s) : wp M G p (fun a s' => G none s' ∧ Q a s') s := by
  intro p' s' hr
  obtain ⟨hg, hq⟩ := h p' s' hr
  refine ⟨hg, fun a ha => ⟨?_, hq a ha⟩⟩
  subst ha
  exact hg

theorem lift_bind_run (p : Prog Op Ans α) (f : α → Fallible Op Ans ε β) :
    ((ExceptT.lift p : Fallible Op Ans ε α) >>= f).run = p.bind fun a => (f a).run := by
  change (p.bind fun a => ret (.ok a)).bind (ExceptT.bindCont f) = _
  rw [bind_assoc]
  rfl

/-- A failing first part is the whole. -/
theorem wp_andThen {G : Option Op → σ → Prop} {p : Fallible Op Ans ε α}
    {f : α → Fallible Op Ans ε β} {Q : Except ε β → σ → Prop} {s : σ}
    (h : wp M G p.run (Ends (fun a s' => wp M G (f a).run Q s')
      fun e s' => wp M G (.ret (.error e)) Q s') s) : wp M G (p >>= f).run Q s := by
  apply wp_bind
  apply wp_mono h
  intro r s' hr
  cases r with
  | ok a => exact hr
  | error e => exact hr

theorem Fallible.bind_assoc {γ : Type} (p : Fallible Op Ans ε α) (f : α → Fallible Op Ans ε β)
    (g : β → Fallible Op Ans ε γ) : (p >>= f) >>= g = p >>= fun a => f a >>= g := by
  change (p.run.bind (ExceptT.bindCont f)).bind (ExceptT.bindCont g) = _
  rw [Prog.bind_assoc]
  change p.run.bind _ = p.run.bind _
  congr 1
  funext r
  cases r with
  | ok a => rfl
  | error e => rfl

/-- A run that has returned has run its first part, and then the second unless that failed. -/
theorem Closed.reach_sequence (hM : Closed M) {p : Fallible Op Ans ε α}
    {f : α → Fallible Op Ans ε β} {s s' : σ} {r : Except ε β}
    (h : Reach M ((p >>= f).run, s) (.ret r, s')) :
    (∃ e, r = .error e ∧ Reach M (p.run, s) (.ret (.error e), s')) ∨
      ∃ a s₁, Reach M (p.run, s) (.ret (.ok a), s₁) ∧
        Reach M ((p >>= f).run, s) ((f a).run, s₁) ∧ Reach M ((f a).run, s₁) (.ret r, s') := by
  obtain ⟨r₁, s₁, hp, hf⟩ := reach_bind_ret h
  cases r₁ with
  | ok a => exact Or.inr ⟨a, s₁, hp, Reach.bind hp _, hf⟩
  | error e =>
    obtain ⟨hr, rfl⟩ := hM.reach_ret hf
    exact Or.inl ⟨e, hr, hp⟩

/-- A run that has returned a value has run both its parts. -/
theorem Closed.reach_andThen (hM : Closed M) {p : Fallible Op Ans ε α}
    {f : α → Fallible Op Ans ε β} {s s' : σ} {b : β}
    (h : Reach M ((p >>= f).run, s) (.ret (.ok b), s')) :
    ∃ a s₁, Reach M (p.run, s) (.ret (.ok a), s₁) ∧ Reach M ((f a).run, s₁) (.ret (.ok b), s') := by
  rcases hM.reach_sequence h with ⟨e, he, _⟩ | ⟨a, s₁, hp, _, hf⟩
  · cases he
  · exact ⟨a, s₁, hp, hf⟩

section Rules

variable {I P : σ → Prop} {A : α → σ → Prop} {B : ε → σ → Prop}

/-- What a triple says about a run that has returned. -/
theorem Triple.returns {p : Fallible Op Ans ε α} (h : Triple M I P p A B) {s s' : σ} (hI : I s)
    (hP : P s) {r : Except ε α} (hr : Reach M (p.run, s) (.ret r, s')) :
    I s' ∧ Ends A B r s' :=
  ⟨(h s hI hP _ _ hr).1, (h s hI hP _ _ hr).2 r rfl⟩

theorem Triple.invariant {p : Fallible Op Ans ε α} (h : Triple M I P p A B) {s s' : σ} (hI : I s)
    (hP : P s) {q : Prog Op Ans (Except ε α)} (hr : Reach M (p.run, s) (q, s')) : I s' :=
  (h s hI hP _ _ hr).1

theorem Triple.conseq {P' : σ → Prop} {A' : α → σ → Prop} {B' : ε → σ → Prop}
    {p : Fallible Op Ans ε α} (h : Triple M I P p A B) (hP : ∀ s, I s → P' s → P s)
    (hA : ∀ a s, I s → A a s → A' a s) (hB : ∀ e s, I s → B e s → B' e s) :
    Triple M I P' p A' B' := by
  intro s hI hP'
  refine wp_mono (wp_guard (h s hI (hP s hI hP'))) ?_
  rintro (e | a) s' ⟨hI', hr⟩
  · exact hB e s' hI' hr
  · exact hA a s' hI' hr

theorem Triple.pre {P' : σ → Prop} {p : Fallible Op Ans ε α} (h : Triple M I P p A B)
    (hP : ∀ s, I s → P' s → P s) : Triple M I P' p A B :=
  h.conseq hP (fun _ _ _ h => h) (fun _ _ _ h => h)

theorem Triple.post {A' : α → σ → Prop} {p : Fallible Op Ans ε α} (h : Triple M I P p A B)
    (hA : ∀ a s, I s → A a s → A' a s) : Triple M I P p A' B :=
  h.conseq (fun _ _ h => h) hA (fun _ _ _ h => h)

/-- A fact that does not mention the state may be assumed. -/
theorem triple_of_pure {φ : Prop} {p : Fallible Op Ans ε α} (h : φ → Triple M I P p A B) :
    Triple M I (fun s => φ ∧ P s) p A B :=
  fun s hI hP => h hP.1 s hI hP.2

theorem triple_exists {γ : Type} {P : γ → σ → Prop} {p : Fallible Op Ans ε α}
    (h : ∀ c, Triple M I (P c) p A B) : Triple M I (fun s => ∃ c, P c s) p A B :=
  fun s hI ⟨c, hP⟩ => h c s hI hP

theorem Closed.triple_pure (hM : Closed M) {a : α} (h : ∀ s, I s → P s → A a s) :
    Triple M I P (pure a : Fallible Op Ans ε α) A B :=
  fun s hI hP => hM.wp_ret hI (h s hI hP)

theorem Closed.triple_throw (hM : Closed M) {e : ε} (h : ∀ s, I s → P s → B e s) :
    Triple M I P (throw e : Fallible Op Ans ε α) A B :=
  fun s hI hP => hM.wp_ret hI (h s hI hP)

theorem Closed.triple_ask (hM : Closed M) {op : Op} {A : Ans op → σ → Prop}
    (h : ∀ s x s', I s → P s → M.act op s x s' → I s' ∧ A x s') :
    Triple M I P (ask op : Fallible Op Ans ε (Ans op)) A B := by
  intro s hI hP
  refine hM.wp_call hI fun x s' hact => ?_
  obtain ⟨hI', hA⟩ := h s x s' hI hP hact
  exact hM.wp_ret hI' hA

theorem Closed.triple_bind (hM : Closed M) {p : Fallible Op Ans ε α}
    {f : α → Fallible Op Ans ε β} {C : β → σ → Prop} (hp : Triple M I P p A B)
    (hf : ∀ a, Triple M I (A a) (f a) C B) : Triple M I P (p >>= f) C B := by
  intro s hI hP
  refine wp_bind (wp_mono (wp_guard (hp s hI hP)) ?_)
  rintro (e | a) s' ⟨hI', hr⟩
  · exact hM.wp_ret hI' hr
  · exact hf a s' hI' hr

theorem Closed.triple_attempt (hM : Closed M) {p : Fallible Op Ans ε α}
    {C : Except ε α → σ → Prop}
    (hp : Triple M I P p (fun a => C (.ok a)) (fun e => C (.error e))) :
    Triple M I P (attempt p) C B := by
  intro s hI hP
  refine wp_bind (wp_mono (wp_guard (hp s hI hP)) ?_)
  rintro (e | a) s' ⟨hI', hr⟩
  · exact hM.wp_ret hI' hr
  · exact hM.wp_ret hI' hr

/-- The errors of a part under another name. -/
theorem Closed.triple_adapt {ε' : Type} (hM : Closed M) {f : ε → ε'} {p : Fallible Op Ans ε α}
    {B : ε' → σ → Prop} (hp : Triple M I P p A fun e => B (f e)) :
    Triple M I P (ExceptT.adapt f p) A B := by
  intro s hI hP
  apply wp_bind
  apply wp_mono (wp_guard (hp s hI hP))
  rintro (e | a) s' ⟨hI', hr⟩
  · exact hM.wp_ret hI' hr
  · exact hM.wp_ret hI' hr

theorem triple_ite {c : Prop} [Decidable c] {p q : Fallible Op Ans ε α}
    (hp : c → Triple M I P p A B) (hq : ¬ c → Triple M I P q A B) :
    Triple M I P (if c then p else q) A B := by
  split
  · next h => exact hp h
  · next h => exact hq h

end Rules

/-- A program whose calls all keep an assertion keeps it. -/
theorem Closed.wp_within (hM : Closed M) {I P : σ → Prop} {S : Op → Prop}
    (hS : ∀ op s x s', S op → I s → P s → M.act op s x s' → I s' ∧ P s')
    {p : Prog Op Ans α} (hp : p.Within S) {Q : α → σ → Prop} (hQ : ∀ a s, P s → Q a s) {s : σ}
    (hI : I s) (hs : P s) : wp M (fun _ s => I s) p Q s := by
  induction p generalizing s with
  | ret a => exact hM.wp_ret hI (hQ a s hs)
  | call op k ih =>
    refine hM.wp_call hI fun x s' hact => ?_
    obtain ⟨hI', hs'⟩ := hS op s x s' hp.1 hI hs hact
    exact ih x (hp.2 x) hQ hI' hs'
  | loop body k => exact hp.elim

theorem Closed.triple_within (hM : Closed M) {I P : σ → Prop} {S : Op → Prop}
    (hS : ∀ op s x s', S op → I s → P s → M.act op s x s' → I s' ∧ P s')
    {p : Fallible Op Ans ε α} (hp : Fallible.Within S p) :
    Triple M I P p (fun _ => P) (fun _ => P) := by
  intro s hI hs
  refine hM.wp_within hS hp ?_ hI hs
  rintro (e | a) s' hs'
  · exact hs'
  · exact hs'

/-- A machine on which every call gets an answer runs a loop-free program to its end. -/
theorem Prog.LoopFree.completes {p : Prog Op Ans α} (hp : p.LoopFree) {I : σ → Prop}
    (hact : ∀ op s, I s → ∃ x s', M.act op s x s' ∧ I s') {s : σ} (hs : I s) :
    ∃ a s', Reach M (p, s) (.ret a, s') := by
  induction p generalizing s with
  | ret a => exact ⟨a, s, .refl⟩
  | call op k ih =>
    obtain ⟨x, s', hx, hs'⟩ := hact op s hs
    obtain ⟨a, s'', hr⟩ := ih x (hp x) hs'
    exact ⟨a, s'', .head (.call hx) hr⟩
  | loop body k => exact hp.elim

section Before

variable {γ : Type} {call : γ → Op} {I P : σ → Prop} {A : α → σ → Prop} {B : ε → σ → Prop}

/-- Whenever a run from a state with `I` and `P` comes to one of the calls, what follows that
call is related by `R` to the state it is made in. -/
def Before (M : Machine Op Ans σ) (call : γ → Op) (I P : σ → Prop) (p : Fallible Op Ans ε α)
    (R : (g : γ) → (Ans (call g) → Prog Op Ans (Except ε α)) → σ → Prop) : Prop :=
  ∀ s, I s → P s → ∀ g k s', Reach M (p.run, s) (.call (call g) k, s') → R g k s'

/-- A program that makes none of the calls. -/
theorem before_never {p : Fallible Op Ans ε α}
    {R : (g : γ) → (Ans (call g) → Prog Op Ans (Except ε α)) → σ → Prop}
    (hp : Fallible.Within (fun op => ∀ g, op ≠ call g) p) : Before M call I P p R :=
  fun _ _ _ g _ _ hr => absurd rfl ((Prog.Within.reach hp hr).1 g)

/-- A first part that makes none of the calls is run to its end. -/
theorem before_bind {p : Fallible Op Ans ε α}
    {f : α → Fallible Op Ans ε β}
    {R : (g : γ) → (Ans (call g) → Prog Op Ans (Except ε β)) → σ → Prop}
    (hp : Triple M I P p A B) (hnever : Fallible.Within (fun op => ∀ g, op ≠ call g) p)
    (hf : ∀ a, Before M call I (A a) (f a) R) : Before M call I P (p >>= f) R := by
  intro s hI hP g k s' hr
  have hsecond : ∀ r s₁, Reach M (p.run, s) (.ret r, s₁) →
      Reach M (ExceptT.bindCont f r, s₁) (.call (call g) k, s') → R g k s' := by
    intro r s₁ hfirst hrest
    obtain ⟨hI₁, hends⟩ := hp.returns hI hP hfirst
    cases r with
    | ok a => exact hf a s₁ hI₁ hends g k s' hrest
    | error e =>
      have hstopped : Prog.Within (fun _ => False) (ret (Except.error e) : Prog Op Ans (Except ε β)) :=
        trivial
      exact (hstopped.reach hrest).1.elim
  rcases reach_bind hr with ⟨p', hcall, hfirst⟩ | ⟨r, s₁, hfirst, hrest⟩
  · have hwithin := Prog.Within.reach hnever hfirst
    cases p' with
    | ret r =>
      have hrest : ExceptT.bindCont f r = .call (call g) k := hcall.symm
      exact hsecond r s' hfirst (hrest ▸ .refl)
    | call op k' =>
      cases hcall
      exact absurd rfl (hwithin.1 g)
    | loop body k' => exact hwithin.elim
  · exact hsecond r s₁ hfirst hrest

/-- The call itself, when the rest makes no other. -/
theorem before_ask {g : γ} {f : Ans (call g) → Fallible Op Ans ε β}
    {R : (g : γ) → (Ans (call g) → Prog Op Ans (Except ε β)) → σ → Prop} (hM : Closed M)
    (hcall : Function.Injective call)
    (hnever : ∀ x, Fallible.Within (fun op => ∀ g, op ≠ call g) (f x))
    (hR : ∀ s, I s → P s → R g (fun x => (f x).run) s) :
    Before M call I P (ask (call g) >>= f) R := by
  intro s hI hP g' k s' hr
  rcases Relation.ReflTransGen.cases_head hr with hsame | ⟨c, hstep, hrest⟩
  · have hprogram : (ask (call g) >>= f).run = .call (call g) fun x => (f x).run := rfl
    rw [hprogram] at hsame
    obtain ⟨hprog, rfl⟩ := Prod.mk.inj hsame
    obtain ⟨hg, hk⟩ := Prog.call.inj hprog
    obtain rfl := hcall hg
    rw [← eq_of_heq hk]
    exact hR s hI hP
  · cases hstep with
    | call _ => exact absurd rfl ((Prog.Within.reach (hnever _) hrest).1 g')
    | env he => exact absurd he (hM _ _)

theorem before_of_pure {φ : Prop} {p : Fallible Op Ans ε α}
    {R : (g : γ) → (Ans (call g) → Prog Op Ans (Except ε α)) → σ → Prop}
    (h : φ → Before M call I P p R) : Before M call I (fun s => φ ∧ P s) p R :=
  fun s hI hP => h hP.1 s hI hP.2

theorem before_of_state {p : Fallible Op Ans ε α}
    {R : (g : γ) → (Ans (call g) → Prog Op Ans (Except ε α)) → σ → Prop}
    (h : ∀ s₀, I s₀ → P s₀ → Before M call I (· = s₀) p R) : Before M call I P p R :=
  fun s hI hP => h s hI hP s hI rfl

theorem before_ite {c : Prop} [Decidable c] {p q : Fallible Op Ans ε α}
    {R : (g : γ) → (Ans (call g) → Prog Op Ans (Except ε α)) → σ → Prop}
    (hp : c → Before M call I P p R) (hq : ¬ c → Before M call I P q R) :
    Before M call I P (if c then p else q) R := by
  split
  · next h => exact hp h
  · next h => exact hq h

end Before

/-- What a program without loops returns when `look` answers its calls. -/
def Prog.answer (look : (op : Op) → Option (Ans op)) : Prog Op Ans α → Option α
  | .ret a => some a
  | .call op k => (look op).bind fun x => (k x).answer look
  | .loop _ _ => none

theorem Prog.answer_bind (look : (op : Op) → Option (Ans op)) (p : Prog Op Ans α)
    (f : α → Prog Op Ans β) :
    (p.bind f).answer look = (p.answer look).bind fun a => (f a).answer look := by
  induction p with
  | ret a => rfl
  | call op k ih =>
    simp only [call_bind, answer, Option.bind_assoc]
    congr 1
    funext x
    exact ih x f
  | loop body k => rfl

/-- Where the machine may answer as `look` does without moving, it may run a program so. -/
theorem Prog.answer_reach {look : (op : Op) → Option (Ans op)} {s : σ}
    (hlook : ∀ op x, look op = some x → M.act op s x s) {p : Prog Op Ans α} {a : α}
    (h : p.answer look = some a) (t₀ : List (Event Op Ans)) :
    ∃ t, Reach (traced M) (p, (s, t₀)) (.ret a, (s, t₀ ++ t)) := by
  induction p generalizing t₀ with
  | ret b =>
    cases h
    refine ⟨[], ?_⟩
    rw [List.append_nil]
  | call op k ih =>
    obtain ⟨x, hx, hk⟩ := Option.bind_eq_some_iff.mp h
    obtain ⟨t, ht⟩ := ih x hk (t₀ ++ [⟨op, x⟩])
    have hstep : Step (traced M) (.call op k, (s, t₀)) (k x, (s, t₀ ++ [⟨op, x⟩])) :=
      .call ⟨hlook op x hx, rfl⟩
    rw [List.append_assoc] at ht
    exact ⟨⟨op, x⟩ :: t, .head hstep ht⟩
  | loop body k => cases h

/-- With the answers of `look` the program returns `a`. -/
def Yields (look : (op : Op) → Option (Ans op)) (p : Fallible Op Ans ε α) (a : α) : Prop :=
  p.run.answer look = some (.ok a)

section Yields

variable {look : (op : Op) → Option (Ans op)}

theorem Yields.unique {p : Fallible Op Ans ε α} {a a' : α} (h : Yields look p a)
    (h' : Yields look p a') : a = a' := by
  have := h.symm.trans h'
  simpa using this

@[simp] theorem yields_pure {a a' : α} :
    Yields look (pure a : Fallible Op Ans ε α) a' ↔ a = a' := by
  simp [Yields, pure, ExceptT.pure, ExceptT.mk, ExceptT.run, Prog.answer]

@[simp] theorem yields_throw {e : ε} {a : α} :
    ¬ Yields look (throw e : Fallible Op Ans ε α) a := by
  simp [Yields, throw, throwThe, MonadExceptOf.throw, ExceptT.mk, ExceptT.run, Prog.answer]

@[simp] theorem yields_ask {op : Op} {x : Ans op} :
    Yields look (ask op : Fallible Op Ans ε (Ans op)) x ↔ look op = some x := by
  simp only [Yields, ask, ExceptT.lift, ExceptT.run, ExceptT.mk, Functor.map, perform, Prog.bind,
    Prog.answer]
  cases look op <;> simp [Prog.answer]

/-- A sequence yields what its second part does from what the first one yields. -/
@[simp] theorem yields_bind {p : Fallible Op Ans ε α} {f : α → Fallible Op Ans ε β} {b : β} :
    Yields look (p >>= f) b ↔ ∃ a, Yields look p a ∧ Yields look (f a) b := by
  have h : (p >>= f).run.answer look = (p.run.answer look).bind fun r =>
      (match r with
        | .ok a => (f a).run
        | .error e => Prog.ret (.error e)).answer look := Prog.answer_bind look p.run _
  unfold Yields
  rw [h]
  rcases p.run.answer look with _ | e | a
  · simp
  · simp [Prog.answer]
  · simp

end Yields

/-- The program may return `a` when every call is answered as `A` allows. -/
def Prog.MayReturn (A : (op : Op) → Ans op → Prop) : Prog Op Ans α → α → Prop
  | .ret b, a => b = a
  | .call op k, a => ∃ x, A op x ∧ (k x).MayReturn A a
  | .loop _ _, _ => False

/-- A sequence may return what its second part may from something the first may return. -/
theorem Prog.mayReturn_bind {A : (op : Op) → Ans op → Prop} {p : Prog Op Ans α}
    {f : α → Prog Op Ans β} {b : β} :
    (p.bind f).MayReturn A b ↔ ∃ a, p.MayReturn A a ∧ (f a).MayReturn A b := by
  induction p with
  | ret a => exact ⟨fun h => ⟨a, rfl, h⟩, fun ⟨_, rfl, h⟩ => h⟩
  | call op k ih =>
    constructor
    · rintro ⟨x, hx, h⟩
      obtain ⟨a, ha, hb⟩ := (ih x).mp h
      exact ⟨a, ⟨x, hx, ha⟩, hb⟩
    · rintro ⟨a, ⟨x, hx, ha⟩, hb⟩
      exact ⟨x, hx, (ih x).mpr ⟨a, ha, hb⟩⟩
  | loop body k => exact ⟨fun h => h.elim, fun ⟨_, h, _⟩ => h.elim⟩

theorem Prog.answer_eq_some {look : (op : Op) → Option (Ans op)} {p : Prog Op Ans α} {a : α} :
    p.answer look = some a ↔ p.MayReturn (fun op x => look op = some x) a := by
  induction p with
  | ret b => exact Option.some_inj
  | call op k ih =>
    rw [Prog.answer, Option.bind_eq_some_iff]
    exact exists_congr fun x => and_congr_right fun _ => ih x
  | loop body k => exact ⟨fun h => (nomatch h), fun h => h.elim⟩

/-- The program may succeed with `a` when every call is answered as `A` allows. -/
def MayYield (A : (op : Op) → Ans op → Prop) (p : Fallible Op Ans ε α) (a : α) : Prop :=
  p.run.MayReturn A (.ok a)

section MayYield

variable {A : (op : Op) → Ans op → Prop}

theorem yields_iff {look : (op : Op) → Option (Ans op)} {p : Fallible Op Ans ε α} {a : α} :
    Yields look p a ↔ MayYield (fun op x => look op = some x) p a := Prog.answer_eq_some

@[simp] theorem mayYield_pure {a a' : α} :
    MayYield A (pure a : Fallible Op Ans ε α) a' ↔ a = a' :=
  ⟨fun h => Except.ok.inj h, fun h => congrArg Except.ok h⟩

@[simp] theorem mayYield_throw {e : ε} {a : α} :
    ¬ MayYield A (throw e : Fallible Op Ans ε α) a := fun h => nomatch (h : Except.error e = _)

@[simp] theorem mayYield_ask {op : Op} {x : Ans op} :
    MayYield A (ask op : Fallible Op Ans ε (Ans op)) x ↔ A op x :=
  ⟨fun ⟨_, hx, h⟩ => Except.ok.inj h ▸ hx, fun h => ⟨x, h, rfl⟩⟩

@[simp] theorem mayYield_bind {p : Fallible Op Ans ε α} {f : α → Fallible Op Ans ε β} {b : β} :
    MayYield A (p >>= f) b ↔ ∃ a, MayYield A p a ∧ MayYield A (f a) b := by
  apply Prog.mayReturn_bind.trans
  constructor
  · rintro ⟨e | a, hp, hf⟩
    · exact nomatch (hf : Except.error e = _)
    · exact ⟨a, hp, hf⟩
  · rintro ⟨a, hp, hf⟩
    exact ⟨.ok a, hp, hf⟩

theorem mayYield_ite {c : Prop} [Decidable c] {p q : Fallible Op Ans ε α} {a : α} :
    MayYield A (if c then p else q) a ↔ (c ∧ MayYield A p a) ∨ (¬ c ∧ MayYield A q a) := by
  by_cases hc : c <;> simp [hc]

/-- A run returns what its answers allow, where the answers known to be possible only grow. -/
theorem Closed.triple_mayYield (hM : Closed M) {I P : σ → Prop} {S : Op → Prop}
    {A : σ → (op : Op) → Ans op → Prop}
    (hS : ∀ op s x s', S op → I s → P s → M.act op s x s' →
      (I s' ∧ P s') ∧ A s' op x ∧ ∀ op' x', A s op' x' → A s' op' x')
    {p : Fallible Op Ans ε α} (hp : Fallible.Within S p) :
    Triple M I P p (fun a s => MayYield (A s) p a ∧ P s) (fun _ => P) := by
  have key : ∀ {γ : Type} (q : Prog Op Ans γ), q.Within S → ∀ s, I s → P s →
      wp M (fun _ s => I s) q (fun a s' => (q.MayReturn (A s') a ∧ P s') ∧
        ∀ op x, A s op x → A s' op x) s := by
    intro γ q hq
    induction q with
    | ret a => exact fun s hI hs => hM.wp_ret hI ⟨⟨rfl, hs⟩, fun _ _ h => h⟩
    | call op k ih =>
      intro s hI hs
      apply hM.wp_call hI
      intro x s' hact
      obtain ⟨⟨hI', hs'⟩, hx, hgrow⟩ := hS op s x s' hq.1 hI hs hact
      apply wp_mono (ih x (hq.2 x) s' hI' hs')
      rintro a s'' ⟨⟨ha, hP⟩, hgrow'⟩
      exact ⟨⟨⟨x, hgrow' op x hx, ha⟩, hP⟩, fun op' x' h => hgrow' op' x' (hgrow op' x' h)⟩
    | loop body k => exact hq.elim
  intro s hI hs
  apply wp_mono (key p.run hp s hI hs)
  rintro (e | a) s' ⟨⟨ha, hP⟩, _⟩
  · exact hP
  · exact ⟨ha, hP⟩

/-- The errors that a program can return at all are the errors of its runs. -/
theorem Triple.throws {I P : σ → Prop} {p : Fallible Op Ans ε α} {A : α → σ → Prop}
    {B : ε → σ → Prop} {E : ε → Prop} (h : Triple M I P p A B) (hE : Throws E p) :
    Triple M I P p A fun e s => E e ∧ B e s := by
  intro s hI hP q s' hr
  refine ⟨(h s hI hP q s' hr).1, ?_⟩
  rintro (e | a) rfl
  · exact ⟨hE.reach hr e rfl, (h s hI hP _ s' hr).2 _ rfl⟩
  · exact (h s hI hP _ s' hr).2 _ rfl

end MayYield

/-- The program changes nothing; it returns what `look` makes it return, and fails
only where `look` does not let it return, or if it may fail anyway. -/
def ReadsAs (M : Machine Op Ans σ) (mayFail : Prop) (look : σ → (op : Op) → Option (Ans op))
    (p : Fallible Op Ans ε α) : Prop :=
  ∀ (I : σ → Prop) (s₀ : σ), Triple M I (· = s₀) p (fun a s => s = s₀ ∧ Yields (look s₀) p a)
    (fun _ s => s = s₀ ∧ (mayFail ∨ ∀ a, ¬ Yields (look s₀) p a))

/-- Assertions are proved from each state that meets them. -/
theorem triple_of_state {I P : σ → Prop} {p : Fallible Op Ans ε α} {A : α → σ → Prop}
    {B : ε → σ → Prop} (h : ∀ s₀, I s₀ → P s₀ → Triple M I (· = s₀) p A B) : Triple M I P p A B :=
  fun s hI hP => h s hI hP s hI rfl

section Reads

variable {mayFail : Prop} {look : σ → (op : Op) → Option (Ans op)}

theorem Closed.readsAs_pure (hM : Closed M) (a : α) :
    ReadsAs M mayFail look (pure a : Fallible Op Ans ε α) :=
  fun _ _ => hM.triple_pure fun _ _ hs => ⟨hs, yields_pure.mpr rfl⟩

theorem Closed.readsAs_throw (hM : Closed M) (e : ε) :
    ReadsAs M mayFail look (throw e : Fallible Op Ans ε α) :=
  fun _ _ => hM.triple_throw fun _ _ hs => ⟨hs, Or.inr fun _ => yields_throw⟩

/-- A sequence reads as its parts do. -/
theorem Closed.readsAs_bind (hM : Closed M) {p : Fallible Op Ans ε α}
    {f : α → Fallible Op Ans ε β} (hp : ReadsAs M mayFail look p)
    (hf : ∀ a, ReadsAs M mayFail look (f a)) : ReadsAs M mayFail look (p >>= f) := by
  intro I s₀
  refine hM.triple_bind (A := fun a s => s = s₀ ∧ Yields (look s₀) p a)
    ((hp I s₀).conseq (fun _ _ h => h) (fun _ _ _ h => h) ?_) fun a => ?_
  · rintro e s _ ⟨hs, hfail⟩
    refine ⟨hs, hfail.imp_right fun hno b hb => ?_⟩
    obtain ⟨a, ha, _⟩ := yields_bind.mp hb
    exact hno a ha
  · refine triple_of_state fun s₁ _ hs₁ => ?_
    obtain ⟨rfl, ha⟩ := hs₁
    refine (hf a I s₁).conseq (fun _ _ h => h) ?_ ?_
    · rintro b s _ ⟨hs, hb⟩
      exact ⟨hs, yields_bind.mpr ⟨a, ha, hb⟩⟩
    · rintro e s _ ⟨hs, hfail⟩
      refine ⟨hs, hfail.imp_right fun hno b hb => ?_⟩
      obtain ⟨a', ha', hb'⟩ := yields_bind.mp hb
      rw [ha'.unique ha] at hb'
      exact hno b hb'

theorem ReadsAs.ite {c : Prop} [Decidable c] {p q : Fallible Op Ans ε α}
    (hp : ReadsAs M mayFail look p) (hq : ReadsAs M mayFail look q) :
    ReadsAs M mayFail look (if c then p else q) := by
  split
  · exact hp
  · exact hq

/-- The program changes nothing and never returns a value. -/
def Fails (M : Machine Op Ans σ) (p : Fallible Op Ans ε α) : Prop :=
  ∀ (I : σ → Prop) (s₀ : σ), Triple M I (· = s₀) p (fun _ _ => False) (fun _ s => s = s₀)

theorem Closed.fails_throw (hM : Closed M) (e : ε) :
    Fails M (throw e : Fallible Op Ans ε α) :=
  fun _ _ => hM.triple_throw fun _ _ hs => hs

theorem Closed.fails_bind (hM : Closed M) {p : Fallible Op Ans ε α}
    {f : α → Fallible Op Ans ε β} (hp : Fails M p) : Fails M (p >>= f) :=
  fun I s₀ => hM.triple_bind (hp I s₀) fun _ _ _ h => h.elim

theorem ReadsAs.fails_bind (hM : Closed M) {p : Fallible Op Ans ε α}
    {f : α → Fallible Op Ans ε β} (hp : ReadsAs M mayFail look p) (hf : ∀ a, Fails M (f a)) :
    Fails M (p >>= f) := by
  intro I s₀
  refine hM.triple_bind (A := fun _ s => s = s₀)
    ((hp I s₀).conseq (fun _ _ h => h) (fun _ _ _ h => h.1) (fun _ _ _ h => h.1)) fun a => ?_
  exact hf a I s₀

/-- A call whose answer is either the one `look` gives, or makes the rest fail. -/
theorem Closed.readsAs_call (hM : Closed M) {op : Op} {f : Ans op → Fallible Op Ans ε β}
    (hact : ∀ s x s', M.act op s x s' → s' = s ∧
      (look s op = some x ∨ (mayFail ∨ look s op = none) ∧ Fails M (f x)))
    (hf : ∀ x, ReadsAs M mayFail look (f x)) : ReadsAs M mayFail look (ask op >>= f) := by
  intro I s₀
  refine hM.triple_bind (A := fun x s => s = s₀ ∧
      (look s₀ op = some x ∨ (mayFail ∨ look s₀ op = none) ∧ Fails M (f x)))
    (hM.triple_ask ?_) fun x => ?_
  · rintro s x s' hI rfl hx
    obtain ⟨rfl, hx⟩ := hact s x s' hx
    exact ⟨hI, rfl, hx⟩
  · refine triple_of_state fun s₁ _ hs₁ => ?_
    obtain ⟨rfl, hx | ⟨hfail, hx⟩⟩ := hs₁
    · refine (hf x I s₁).conseq (fun _ _ h => h) ?_ ?_
      · rintro b s _ ⟨hs, hb⟩
        exact ⟨hs, yields_bind.mpr ⟨x, yields_ask.mpr hx, hb⟩⟩
      · rintro e s _ ⟨hs, hno⟩
        refine ⟨hs, hno.imp_right fun hno b hb => ?_⟩
        obtain ⟨x', hx', hb'⟩ := yields_bind.mp hb
        have hxx : x' = x := by simpa [hx] using (yields_ask.mp hx').symm
        rw [hxx] at hb'
        exact hno b hb'
    · refine (hx I s₁).conseq (fun _ _ h => h) (fun _ _ _ h => h.elim) ?_
      rintro e s _ hs
      refine ⟨hs, hfail.imp_right fun hnone b hb => ?_⟩
      obtain ⟨x', hx', _⟩ := yields_bind.mp hb
      rw [yields_ask, hnone] at hx'
      exact nomatch hx'

end Reads

/-- The machine without an environment in which interference happens right before a call. -/
def absorb (M : Machine Op Ans σ) : Machine Op Ans σ where
  act op s x s' := ∃ s₁, EnvReach M s s₁ ∧ M.act op s₁ x s'
  env _ _ := False

theorem absorb_closed : Closed (absorb M) := fun _ _ h => h

/-- Every run is a run with the interference moved to the calls, up to a last stretch. -/
theorem reach_absorb {p : Prog Op Ans α} {s : σ} {c : Prog Op Ans α × σ}
    (hr : Reach M (p, s) c) :
    ∃ s₁, Reach (absorb M) (p, s) (c.1, s₁) ∧ EnvReach M s₁ c.2 := by
  induction hr with
  | refl => exact ⟨s, .refl, .refl⟩
  | @tail c₁ c₂ _ hstep ih =>
    obtain ⟨s₁, hreach, henv⟩ := ih
    cases hstep with
    | call hact => exact ⟨_, hreach.tail (.call ⟨_, henv, hact⟩), .refl⟩
    | loop => exact ⟨s₁, hreach.tail .loop, henv⟩
    | env he => exact ⟨s₁, hreach, henv.tail he⟩

/-- And every such run is a run with its interference. -/
theorem reach_of_absorb {p : Prog Op Ans α} {s : σ} {c : Prog Op Ans α × σ}
    (hr : Reach (absorb M) (p, s) c) : Reach M (p, s) c := by
  induction hr with
  | refl => exact .refl
  | @tail c₁ c₂ _ hstep ih =>
    cases hstep with
    | @call op k x s₁ s₂ hact =>
      obtain ⟨s₃, henv, hact⟩ := hact
      have hwait : ∀ {t : σ}, EnvReach M s₁ t → Reach M (.call op k, s₁) (.call op k, t) := by
        intro t ht
        induction ht with
        | refl => exact .refl
        | tail _ he ih => exact ih.tail (.env he)
      exact (ih.trans (hwait henv)).tail (.call hact)
    | loop => exact ih.tail .loop
    | env he => exact he.elim

end Interactive
