import Mathlib.Logic.Relation
import Mathlib.Tactic.Common

/-! Sequential programs whose only contact with the outside is a call that is
answered by a value, and the machines that answer the calls. Nothing here is
about a particular program; loops are unbounded and need no fuel. -/
namespace Interactive

/-- A program over the operations `Op`, where `op` is answered in `Ans op`.
`loop body k` repeats `body` until it yields a value and then continues with `k`. -/
inductive Prog (Op : Type) (Ans : Op → Type) : Type → Type 1 where
  | ret {α : Type} (a : α) : Prog Op Ans α
  | call {α : Type} (op : Op) (k : Ans op → Prog Op Ans α) : Prog Op Ans α
  | loop {α β : Type} (body : Prog Op Ans (Option β)) (k : β → Prog Op Ans α) : Prog Op Ans α

variable {Op : Type} {Ans : Op → Type} {σ α β γ : Type}

namespace Prog

def bind : Prog Op Ans α → (α → Prog Op Ans β) → Prog Op Ans β
  | ret a, f => f a
  | call op k, f => call op fun x => (k x).bind f
  | loop body k, f => loop body fun b => (k b).bind f

instance : Monad (Prog Op Ans) where
  pure := ret
  bind := bind

/-- The program that makes one call and returns its answer. -/
def perform (op : Op) : Prog Op Ans (Ans op) := call op ret

/-- What a loop does with the result of one round. -/
def again (body : Prog Op Ans (Option β)) (k : β → Prog Op Ans α) : Option β → Prog Op Ans α
  | none => loop body k
  | some b => k b

/-- Run another program in the place of each call. -/
def handle {Op' : Type} {Ans' : Op' → Type} (h : (op : Op) → Prog Op' Ans' (Ans op)) :
    {α : Type} → Prog Op Ans α → Prog Op' Ans' α
  | _, ret a => ret a
  | _, call op k => (h op).bind fun x => (k x).handle h
  | _, loop body k => loop (body.handle h) fun b => (k b).handle h

/-- The call a program is about to make, if it is poised at one. -/
def head : Prog Op Ans α → Option Op
  | call op _ => some op
  | _ => none

/-- The result of a program that has returned. -/
def ended : Prog Op Ans α → Option α
  | ret a => some a
  | _ => none

theorem ended_eq_some {p : Prog Op Ans α} {a : α} (h : p.ended = some a) : p = ret a := by
  cases p with
  | ret b => rw [Option.some.inj h]
  | call op k => cases h
  | loop body k => cases h

@[simp] theorem pure_eq_ret (a : α) : (pure a : Prog Op Ans α) = ret a := rfl

@[simp] theorem monad_bind_eq (p : Prog Op Ans α) (f : α → Prog Op Ans β) :
    (p >>= f) = p.bind f := rfl

@[simp] theorem ret_bind (a : α) (f : α → Prog Op Ans β) : (ret a).bind f = f a := rfl

@[simp] theorem call_bind (op : Op) (k : Ans op → Prog Op Ans α) (f : α → Prog Op Ans β) :
    (call op k).bind f = call op fun x => (k x).bind f := rfl

@[simp] theorem loop_bind (body : Prog Op Ans (Option γ)) (k : γ → Prog Op Ans α)
    (f : α → Prog Op Ans β) : (loop body k).bind f = loop body fun b => (k b).bind f := rfl

@[simp] theorem perform_bind (op : Op) (f : Ans op → Prog Op Ans β) :
    (perform op).bind f = call op f := rfl

@[simp] theorem head_call (op : Op) (k : Ans op → Prog Op Ans α) : (call op k).head = some op := rfl

@[simp] theorem head_ret (a : α) : (ret a : Prog Op Ans α).head = none := rfl

theorem bind_assoc (p : Prog Op Ans α) (f : α → Prog Op Ans β) (g : β → Prog Op Ans γ) :
    (p.bind f).bind g = p.bind fun a => (f a).bind g := by
  induction p with
  | ret a => rfl
  | call op k ih => simp only [call_bind, ih]
  | loop body k _ ih => simp only [loop_bind, ih]

@[simp] theorem bind_ret (p : Prog Op Ans α) : p.bind ret = p := by
  induction p with
  | ret a => rfl
  | call op k ih => simp only [call_bind, ih]
  | loop body k _ ih => simp only [loop_bind, ih]

theorem handle_bind {Op' : Type} {Ans' : Op' → Type} (h : (op : Op) → Prog Op' Ans' (Ans op))
    (p : Prog Op Ans α) (f : α → Prog Op Ans β) :
    (p.bind f).handle h = (p.handle h).bind fun a => (f a).handle h := by
  induction p with
  | ret a => rfl
  | call op k ih => simp only [call_bind, handle, ih, bind_assoc]
  | loop body k _ ih => simp only [loop_bind, handle, ih]

theorem again_bind (body : Prog Op Ans (Option γ)) (k : γ → Prog Op Ans α)
    (f : α → Prog Op Ans β) :
    (fun o => (again body k o).bind f) = again body fun b => (k b).bind f := by
  funext o
  cases o <;> rfl

end Prog

open Prog

/-- A machine says how a call changes the shared state and which answers it may
get, and what everybody else may do to that state between two calls. -/
structure Machine (Op : Type) (Ans : Op → Type) (σ : Type) where
  act : (op : Op) → σ → Ans op → σ → Prop
  env : σ → σ → Prop

/-- One step of a program running on a machine, interleaved with its environment. -/
inductive Step (M : Machine Op Ans σ) : Prog Op Ans α × σ → Prog Op Ans α × σ → Prop where
  | call {op : Op} {k : Ans op → Prog Op Ans α} {x : Ans op} {s s' : σ} :
      M.act op s x s' → Step M (.call op k, s) (k x, s')
  | loop {β : Type} {body : Prog Op Ans (Option β)} {k : β → Prog Op Ans α} {s : σ} :
      Step M (.loop body k, s) (body.bind (again body k), s)
  | env {p : Prog Op Ans α} {s s' : σ} : M.env s s' → Step M (p, s) (p, s')

/-- Any finite number of steps. -/
abbrev Reach (M : Machine Op Ans σ) : Prog Op Ans α × σ → Prog Op Ans α × σ → Prop :=
  Relation.ReflTransGen (Step M)

variable {M : Machine Op Ans σ}

theorem step_ret {a : α} {s : σ} {c : Prog Op Ans α × σ} (h : Step M (.ret a, s) c) :
    ∃ s', M.env s s' ∧ c = (.ret a, s') := by
  cases h with
  | env he => exact ⟨_, he, rfl⟩

/-- A step of a bound program is a step of its first part, unless that has returned. -/
theorem step_bind {p : Prog Op Ans α} {f : α → Prog Op Ans β} {s : σ} {c : Prog Op Ans β × σ}
    (h : Step M (p.bind f, s) c) :
    (∃ p', c.1 = p'.bind f ∧ Step M (p, s) (p', c.2)) ∨ ∃ a, p = .ret a ∧ Step M (f a, s) c := by
  cases p with
  | ret a => exact Or.inr ⟨a, rfl, h⟩
  | call op k =>
    cases h with
    | call hact => exact Or.inl ⟨_, rfl, .call hact⟩
    | env he => exact Or.inl ⟨_, rfl, .env he⟩
  | loop body k =>
    cases h with
    | loop =>
      refine Or.inl ⟨_, ?_, .loop⟩
      rw [bind_assoc, again_bind]
    | env he => exact Or.inl ⟨_, rfl, .env he⟩

/-- A bound program either still runs its first part or has handed over to the second. -/
theorem reach_bind {p : Prog Op Ans α} {f : α → Prog Op Ans β} {s : σ}
    {c : Prog Op Ans β × σ} (h : Reach M (p.bind f, s) c) :
    (∃ p', c.1 = p'.bind f ∧ Reach M (p, s) (p', c.2)) ∨
      ∃ a s', Reach M (p, s) (.ret a, s') ∧ Reach M (f a, s') c := by
  induction h with
  | refl => exact Or.inl ⟨p, rfl, .refl⟩
  | @tail c₁ c₂ _ hstep ih =>
    obtain ⟨q, t⟩ := c₁
    rcases ih with ⟨p', hp, hr⟩ | ⟨a, s', hr, hf⟩
    · dsimp only at hp hr
      subst hp
      rcases step_bind hstep with ⟨p'', hp, hs⟩ | ⟨a, rfl, hs⟩
      · exact Or.inl ⟨p'', hp, hr.tail hs⟩
      · exact Or.inr ⟨a, t, hr, .single hs⟩
    · exact Or.inr ⟨a, s', hr, hf.tail hstep⟩

/-- A bound program that has returned has run both its parts. -/
theorem reach_bind_ret {p : Prog Op Ans α} {f : α → Prog Op Ans β} {s s' : σ} {b : β}
    (h : Reach M (p.bind f, s) (.ret b, s')) :
    ∃ a s₁, Reach M (p, s) (.ret a, s₁) ∧ Reach M (f a, s₁) (.ret b, s') := by
  rcases reach_bind h with ⟨p', hb, hr⟩ | h
  · cases p' with
    | ret a =>
      refine ⟨a, s', hr, ?_⟩
      rw [show f a = .ret b from hb.symm]
    | call op k => exact nomatch hb
    | loop body k => exact nomatch hb
  · exact h

theorem Step.bind {p p' : Prog Op Ans α} {s s' : σ} (h : Step M (p, s) (p', s'))
    (f : α → Prog Op Ans β) : Step M (p.bind f, s) (p'.bind f, s') := by
  cases h with
  | call hact => exact .call hact
  | loop =>
    rw [bind_assoc, again_bind]
    exact .loop
  | env he => exact .env he

theorem Reach.bind {p p' : Prog Op Ans α} {s s' : σ} (h : Reach M (p, s) (p', s'))
    (f : α → Prog Op Ans β) : Reach M (p.bind f, s) (p'.bind f, s') := by
  generalize hc : (p', s') = c at h
  induction h generalizing p' s' with
  | refl =>
    cases hc
    exact .refl
  | @tail c₁ c₂ _ hstep ih =>
    cases hc
    exact (ih rfl).tail (Step.bind hstep f)

/-- A machine that allows more has all the runs of one that allows less. -/
theorem Reach.mono {M' : Machine Op Ans σ} (hact : ∀ op s x s', M.act op s x s' → M'.act op s x s')
    (henv : ∀ s s', M.env s s' → M'.env s s') {c c' : Prog Op Ans α × σ} (h : Reach M c c') :
    Reach M' c c' := by
  induction h with
  | refl => exact .refl
  | tail _ hstep ih =>
    cases hstep with
    | call hx => exact ih.tail (.call (hact _ _ _ _ hx))
    | loop => exact ih.tail .loop
    | env he => exact ih.tail (.env (henv _ _ he))

/-- A handler answers every call and updates its own state. -/
abbrev Handler (Op : Type) (Ans : Op → Type) (σ : Type) := (op : Op) → σ → Ans op × σ

/-- Run with a bound on the number of calls and loop rounds. -/
def Prog.run (h : Handler Op Ans σ) : ℕ → Prog Op Ans α → σ → Option (α × σ)
  | _, .ret a, s => some (a, s)
  | 0, .call _ _, _ => none
  | 0, .loop _ _, _ => none
  | n + 1, .call op k, s => (k (h op s).1).run h n (h op s).2
  | n + 1, .loop body k, s => (body.bind (again body k)).run h n s

/-- The program returns `a` in state `s'`, for some bound. -/
def Returns (h : Handler Op Ans σ) (p : Prog Op Ans α) (s : σ) (a : α) (s' : σ) : Prop :=
  ∃ n, p.run h n s = some (a, s')

variable {h : Handler Op Ans σ}

@[simp] theorem run_ret (n : ℕ) (a : α) (s : σ) :
    (Prog.ret a : Prog Op Ans α).run h n s = some (a, s) := by
  cases n <;> rfl

theorem returns_ret (a : α) (s : σ) : Returns h (.ret a : Prog Op Ans α) s a s := ⟨0, rfl⟩

theorem returns_call {op : Op} {k : Ans op → Prog Op Ans α} {s s' : σ} {a : α}
    (hk : Returns h (k (h op s).1) (h op s).2 a s') : Returns h (.call op k) s a s' := by
  obtain ⟨n, hn⟩ := hk
  exact ⟨n + 1, hn⟩

theorem returns_loop {body : Prog Op Ans (Option β)} {k : β → Prog Op Ans α} {s s' : σ} {a : α}
    (hb : Returns h (body.bind (again body k)) s a s') : Returns h (.loop body k) s a s' := by
  obtain ⟨n, hn⟩ := hb
  exact ⟨n + 1, hn⟩

/-- A run of a sequence is a run of its first part followed by one of the rest. -/
theorem run_bind {f : α → Prog Op Ans β} {a : α} {m : ℕ} {r : β × σ} (n : ℕ) (p : Prog Op Ans α)
    (s s' : σ) (hp : p.run h n s = some (a, s')) (hf : (f a).run h m s' = some r) :
    ∃ j, (p.bind f).run h j s = some r := by
  induction n generalizing p s with
  | zero =>
    cases p with
    | ret b =>
      cases hp
      exact ⟨m, hf⟩
    | call op k => cases hp
    | loop body k => cases hp
  | succ n ih =>
    cases p with
    | ret b =>
      cases hp
      exact ⟨m, hf⟩
    | call op k =>
      obtain ⟨j, hj⟩ := ih _ _ hp
      exact ⟨j + 1, hj⟩
    | loop body k =>
      obtain ⟨j, hj⟩ := ih _ _ hp
      refine ⟨j + 1, ?_⟩
      rw [bind_assoc, again_bind] at hj
      exact hj

theorem returns_bind {p : Prog Op Ans α} {f : α → Prog Op Ans β} {s s' s'' : σ} {a : α} {b : β}
    (hp : Returns h p s a s') (hf : Returns h (f a) s' b s'') : Returns h (p.bind f) s b s'' := by
  obtain ⟨n, hn⟩ := hp
  obtain ⟨m, hm⟩ := hf
  exact run_bind n p s s' hn hm

/-- No unbounded loop; such a program returns whatever it is answered. -/
def Prog.LoopFree : Prog Op Ans α → Prop
  | .ret _ => True
  | .call _ k => ∀ x, (k x).LoopFree
  | .loop _ _ => False

/-- No unbounded loop, and every call is one of `S`. -/
def Prog.Within (S : Op → Prop) : Prog Op Ans α → Prop
  | .ret _ => True
  | .call op k => S op ∧ ∀ x, (k x).Within S
  | .loop _ _ => False

theorem Prog.Within.bind {S : Op → Prop} {p : Prog Op Ans α} {f : α → Prog Op Ans β}
    (hp : p.Within S) (hf : ∀ a, (f a).Within S) : (p.bind f).Within S := by
  induction p with
  | ret a => exact hf a
  | call op k ih => exact ⟨hp.1, fun x => ih x (hp.2 x) hf⟩
  | loop body k => exact hp.elim

theorem Prog.Within.mono {S T : Op → Prop} (hST : ∀ op, S op → T op) {p : Prog Op Ans α}
    (hp : p.Within S) : p.Within T := by
  induction p with
  | ret a => trivial
  | call op k ih => exact ⟨hST op hp.1, fun x => ih x (hp.2 x)⟩
  | loop body k => exact hp.elim

/-- Every call, in loops too, is one of `S`. -/
def Prog.Makes (S : Op → Prop) : {α : Type} → Prog Op Ans α → Prop
  | _, .ret _ => True
  | _, .call op k => S op ∧ ∀ x, (k x).Makes S
  | _, .loop body k => body.Makes S ∧ ∀ b, (k b).Makes S

theorem Prog.Makes.bind {S : Op → Prop} {p : Prog Op Ans α} {f : α → Prog Op Ans β}
    (hp : p.Makes S) (hf : ∀ a, (f a).Makes S) : (p.bind f).Makes S := by
  induction p with
  | ret a => exact hf a
  | call op k ih => exact ⟨hp.1, fun x => ih x (hp.2 x) hf⟩
  | loop body k _ ih => exact ⟨hp.1, fun b => ih b (hp.2 b) hf⟩

theorem Prog.Makes.ite {S : Op → Prop} {c : Prop} [Decidable c] {p q : Prog Op Ans α}
    (hp : p.Makes S) (hq : q.Makes S) : (if c then p else q).Makes S := by
  split
  · exact hp
  · exact hq

theorem Prog.Makes.mono {S T : Op → Prop} (hST : ∀ op, S op → T op) {p : Prog Op Ans α}
    (hp : p.Makes S) : p.Makes T := by
  induction p with
  | ret a => trivial
  | call op k ih => exact ⟨hST op hp.1, fun x => ih x (hp.2 x)⟩
  | loop body k ihbody ih => exact ⟨ihbody hp.1, fun b => ih b (hp.2 b)⟩

theorem Prog.Makes.handle {Op' : Type} {Ans' : Op' → Type}
    {h : (op : Op) → Prog Op' Ans' (Ans op)} {S : Op → Prop} {T : Op' → Prop}
    (hh : ∀ op, S op → (h op).Makes T) {p : Prog Op Ans α} (hp : p.Makes S) :
    (p.handle h).Makes T := by
  induction p with
  | ret a => trivial
  | call op k ih => exact (hh op hp.1).bind fun x => ih x (hp.2 x)
  | loop body k ihbody ih => exact ⟨ihbody hp.1, fun b => ih b (hp.2 b)⟩

theorem Prog.makes_true (p : Prog Op Ans α) : p.Makes fun _ => True := by
  induction p with
  | ret a => trivial
  | call op k ih => exact ⟨trivial, ih⟩
  | loop body k ihbody ih => exact ⟨ihbody, ih⟩

/-- Every value that the program can return has `R`. -/
def Prog.Gives (R : α → Prop) : Prog Op Ans α → Prop
  | .ret a => R a
  | .call _ k => ∀ x, (k x).Gives R
  | .loop _ k => ∀ b, (k b).Gives R

theorem Prog.Gives.bind {R : α → Prop} {R' : β → Prop} {p : Prog Op Ans α} {f : α → Prog Op Ans β}
    (hp : p.Gives R) (hf : ∀ a, R a → (f a).Gives R') : (p.bind f).Gives R' := by
  induction p with
  | ret a => exact hf a hp
  | call op k ih => exact fun x => ih x (hp x) hf
  | loop body k _ ih => exact fun b => ih b (hp b) hf

theorem Prog.gives_true (p : Prog Op Ans α) : p.Gives fun _ => True := by
  induction p with
  | ret a => trivial
  | call op k ih => exact ih
  | loop body k _ ih => exact ih

theorem Prog.Gives.handle {Op' : Type} {Ans' : Op' → Type} {h : (op : Op) → Prog Op' Ans' (Ans op)}
    {R : α → Prop} {p : Prog Op Ans α} (hp : p.Gives R) : (p.handle h).Gives R := by
  induction p with
  | ret a => exact hp
  | call op k ih => exact (h op).gives_true.bind fun x _ => ih x (hp x)
  | loop body k _ ih => exact fun b => ih b (hp b)

theorem Prog.Gives.step {R : α → Prop} {p p' : Prog Op Ans α} {s s' : σ} (hp : p.Gives R)
    (hs : Step M (p, s) (p', s')) : p'.Gives R := by
  cases hs with
  | call _ => exact hp _
  | @loop _ body k =>
    apply body.gives_true.bind
    intro o _
    cases o with
    | none => exact hp
    | some b => exact hp b
  | env _ => exact hp

theorem Prog.Gives.reach {R : α → Prop} {p : Prog Op Ans α} {s : σ} {c : Prog Op Ans α × σ}
    (hp : p.Gives R) (hr : Reach M (p, s) c) : c.1.Gives R := by
  induction hr with
  | refl => exact hp
  | tail _ hstep ih => exact ih.step hstep

theorem Prog.Within.bind_gives {S : Op → Prop} {R : α → Prop} {p : Prog Op Ans α}
    {f : α → Prog Op Ans β} (hp : p.Within S) (hR : p.Gives R) (hf : ∀ a, R a → (f a).Within S) :
    (p.bind f).Within S := by
  induction p with
  | ret a => exact hf a hR
  | call op k ih => exact ⟨hp.1, fun x => ih x (hp.2 x) (hR x) hf⟩
  | loop body k => exact hp.elim

theorem Prog.Within.loopFree {S : Op → Prop} {p : Prog Op Ans α} (hp : p.Within S) :
    p.LoopFree := by
  induction p with
  | ret a => trivial
  | call op k ih => exact fun x => ih x (hp.2 x)
  | loop body k => exact hp.elim

theorem Prog.Within.step {S : Op → Prop} {p p' : Prog Op Ans α} {s s' : σ} (hp : p.Within S)
    (hs : Step M (p, s) (p', s')) : p'.Within S := by
  cases hs with
  | call _ => exact hp.2 _
  | loop => exact hp.elim
  | env _ => exact hp

theorem Prog.Within.reach {S : Op → Prop} {p : Prog Op Ans α} {s : σ} {c : Prog Op Ans α × σ}
    (hp : p.Within S) (hr : Reach M (p, s) c) : c.1.Within S := by
  induction hr with
  | refl => exact hp
  | tail _ hstep ih => exact ih.step hstep

theorem Prog.LoopFree.bind {p : Prog Op Ans α} {f : α → Prog Op Ans β} (hp : p.LoopFree)
    (hf : ∀ a, (f a).LoopFree) : (p.bind f).LoopFree := by
  induction p with
  | ret a => exact hf a
  | call op k ih => exact fun x => ih x (hp x) hf
  | loop body k => exact hp.elim

theorem Prog.LoopFree.ite {c : Prop} [Decidable c] {p q : Prog Op Ans α} (hp : p.LoopFree)
    (hq : q.LoopFree) : (if c then p else q).LoopFree := by
  split
  · exact hp
  · exact hq

theorem Prog.LoopFree.returns {p : Prog Op Ans α} (hp : p.LoopFree) (s : σ) :
    ∃ a s', Returns h p s a s' := by
  induction p generalizing s with
  | ret a => exact ⟨a, s, returns_ret a s⟩
  | call op k ih =>
    obtain ⟨a, s', hr⟩ := ih (h op s).1 (hp _) (h op s).2
    exact ⟨a, s', returns_call hr⟩
  | loop body k => exact hp.elim

theorem Prog.LoopFree.step {p p' : Prog Op Ans α} {s s' : σ} (hp : p.LoopFree)
    (hs : Step M (p, s) (p', s')) : p'.LoopFree := by
  cases hs with
  | call _ => exact hp _
  | loop => exact hp.elim
  | env _ => exact hp

theorem Prog.LoopFree.reach {p : Prog Op Ans α} {s : σ} {c : Prog Op Ans α × σ} (hp : p.LoopFree)
    (hr : Reach M (p, s) c) : c.1.LoopFree := by
  induction hr with
  | refl => exact hp
  | tail _ hstep ih => exact ih.step hstep

/-- A handler that keeps `I`, and whose answers the machine allows in the part of the
handler's state that it sees, only produces runs of the machine. -/
theorem reach_of_run_view {τ : Type} {h : Handler Op Ans τ} (view : τ → σ) {I : τ → Prop}
    (hact : ∀ op t, I t → M.act op (view t) (h op t).1 (view (h op t).2) ∧ I (h op t).2) (n : ℕ)
    (p : Prog Op Ans α) (t : τ) (ht : I t) {a : α} {t' : τ} (hr : p.run h n t = some (a, t')) :
    Reach M (p, view t) (.ret a, view t') ∧ I t' := by
  induction n generalizing p t with
  | zero =>
    cases p with
    | ret b =>
      cases hr
      exact ⟨.refl, ht⟩
    | call op k => cases hr
    | loop body k => cases hr
  | succ n ih =>
    cases p with
    | ret b =>
      cases hr
      exact ⟨.refl, ht⟩
    | call op k =>
      obtain ⟨hstep, ht'⟩ := hact op t ht
      obtain ⟨hreach, hI⟩ := ih _ _ ht' hr
      exact ⟨.head (.call hstep) hreach, hI⟩
    | loop body k =>
      obtain ⟨hreach, hI⟩ := ih _ _ ht hr
      exact ⟨.head .loop hreach, hI⟩

theorem reach_of_run_inv {I : σ → Prop}
    (hact : ∀ op s, I s → M.act op s (h op s).1 (h op s).2 ∧ I (h op s).2) (n : ℕ)
    (p : Prog Op Ans α) (s : σ) (hs : I s) {a : α} {s' : σ} (hr : p.run h n s = some (a, s')) :
    Reach M (p, s) (.ret a, s') ∧ I s' :=
  reach_of_run_view id hact n p s hs hr

theorem reach_of_run (hact : ∀ op s, M.act op s (h op s).1 (h op s).2) (n : ℕ)
    (p : Prog Op Ans α) (s : σ) {a : α} {s' : σ} (hr : p.run h n s = some (a, s')) :
    Reach M (p, s) (.ret a, s') :=
  (reach_of_run_inv (I := fun _ => True) (fun op s _ => ⟨hact op s, trivial⟩) n p s trivial hr).1

theorem reach_of_returns (hact : ∀ op s, M.act op s (h op s).1 (h op s).2)
    {p : Prog Op Ans α} {s s' : σ} {a : α} (hr : Returns h p s a s') :
    Reach M (p, s) (.ret a, s') := by
  obtain ⟨n, hn⟩ := hr
  exact reach_of_run hact n p s hn

end Interactive
