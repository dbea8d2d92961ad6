import Snoozer.InteractiveProgram

/-! Weakest preconditions for interactive programs, with a guard that holds at
every point of every run, and protocols: small automata that a program's calls
obey and that carry facts from one machine to another. -/
namespace Interactive

open Prog

variable {Op : Type} {Ans : Op → Type} {σ Φ α β : Type} {M : Machine Op Ans σ}
  {G : Option Op → σ → Prop}

/-- Everything the environment can do without the program. -/
abbrev EnvReach (M : Machine Op Ans σ) : σ → σ → Prop := Relation.ReflTransGen M.env

def Stable (M : Machine Op Ans σ) (P : σ → Prop) : Prop := ∀ s s', P s → M.env s s' → P s'

theorem Stable.reach {P : σ → Prop} (hP : Stable M P) {s s' : σ} (hs : P s)
    (h : EnvReach M s s') : P s' := by
  induction h with
  | refl => exact hs
  | tail _ he ih => exact hP _ _ ih he

/-- What the calls of a program and the environment keep holds at every point of a run. -/
theorem Prog.Within.keeps {S : Op → Prop} {P : σ → Prop} (hP : Stable M P)
    (hS : ∀ op s x s', S op → P s → M.act op s x s' → P s') {p : Prog Op Ans α}
    (hp : p.Within S) {s : σ} (hs : P s) {c : Prog Op Ans α × σ} (hr : Reach M (p, s) c) :
    P c.2 := by
  induction hr with
  | refl => exact hs
  | tail hr hstep ih =>
    have hwithin := hp.reach hr
    cases hstep with
    | call hact => exact hS _ _ _ _ hwithin.1 ih hact
    | loop => exact ih
    | env he => exact hP _ _ ih he

/-- From `s`, at every point of every interleaved run the guard holds of the call
the program is poised at, and if the program has returned `a` then `Q a` holds. -/
def wp (M : Machine Op Ans σ) (G : Option Op → σ → Prop) (p : Prog Op Ans α)
    (Q : α → σ → Prop) (s : σ) : Prop :=
  ∀ p' s', Reach M (p, s) (p', s') → G p'.head s' ∧ ∀ a, p' = .ret a → Q a s'

theorem wp_mono {p : Prog Op Ans α} {Q Q' : α → σ → Prop} {s : σ}
    (h : wp M G p Q s) (hQ : ∀ a s, Q a s → Q' a s) : wp M G p Q' s :=
  fun p' s' hr => ⟨(h p' s' hr).1, fun a ha => hQ a s' ((h p' s' hr).2 a ha)⟩

theorem wp_weaken {G' : Option Op → σ → Prop} {p : Prog Op Ans α} {Q : α → σ → Prop} {s : σ}
    (hG : ∀ o s, G o s → G' o s) (h : wp M G p Q s) : wp M G' p Q s :=
  fun p' s' hr => ⟨hG _ _ (h p' s' hr).1, (h p' s' hr).2⟩

/-- A program that has ended waits for the environment only. -/
theorem wp_ret {a : α} {Q : α → σ → Prop} {s : σ}
    (h : ∀ s', EnvReach M s s' → G none s' ∧ Q a s') : wp M G (.ret a) Q s := by
  intro p' s' hr
  have key : p' = .ret a ∧ EnvReach M s s' := by
    generalize hc : (p', s') = c at hr
    induction hr generalizing p' s' with
    | refl =>
      cases hc
      exact ⟨rfl, .refl⟩
    | @tail c₁ c₂ _ hstep ih =>
      obtain ⟨q, t⟩ := c₁
      obtain ⟨rfl, ht⟩ := ih q t rfl
      obtain ⟨t', he, rfl⟩ := step_ret hstep
      cases hc
      exact ⟨rfl, ht.tail he⟩
  obtain ⟨rfl, he⟩ := key
  refine ⟨(h s' he).1, fun b hb => ?_⟩
  cases hb
  exact (h s' he).2

/-- A call is made after any steps of the environment. -/
theorem wp_call {op : Op} {k : Ans op → Prog Op Ans α} {Q : α → σ → Prop} {s : σ}
    (h : ∀ s', EnvReach M s s' →
      G (some op) s' ∧ ∀ x s'', M.act op s' x s'' → wp M G (k x) Q s'') :
    wp M G (.call op k) Q s := by
  intro p' s' hr
  have key : (p' = .call op k ∧ EnvReach M s s') ∨
      ∃ s₁ x s₂, EnvReach M s s₁ ∧ M.act op s₁ x s₂ ∧ Reach M (k x, s₂) (p', s') := by
    generalize hc : (p', s') = c at hr
    induction hr generalizing p' s' with
    | refl =>
      cases hc
      exact Or.inl ⟨rfl, .refl⟩
    | @tail c₁ c₂ _ hstep ih =>
      obtain ⟨q, t⟩ := c₁
      cases hc
      rcases ih q t rfl with ⟨rfl, ht⟩ | ⟨s₁, x, s₂, h₁, hact, hk⟩
      · cases hstep with
        | call hact => exact Or.inr ⟨t, _, _, ht, hact, .refl⟩
        | env he => exact Or.inl ⟨rfl, ht.tail he⟩
      · exact Or.inr ⟨s₁, x, s₂, h₁, hact, hk.tail hstep⟩
  rcases key with ⟨rfl, he⟩ | ⟨s₁, x, s₂, h₁, hact, hk⟩
  · exact ⟨(h s' he).1, fun a ha => nomatch ha⟩
  · exact (h s₁ h₁).2 x s₂ hact p' s' hk

/-- The precondition of a sequence, part by part. -/
theorem wp_bind {p : Prog Op Ans α} {f : α → Prog Op Ans β} {Q : β → σ → Prop} {s : σ}
    (h : wp M G p (fun a s' => wp M G (f a) Q s') s) : wp M G (p.bind f) Q s := by
  intro q s' hr
  rcases reach_bind hr with ⟨p', hq, hp⟩ | ⟨a, s₁, hp, hf⟩
  · dsimp only at hq hp
    subst hq
    obtain ⟨hg, hret⟩ := h p' s' hp
    cases p' with
    | ret a => exact hret a rfl _ _ .refl
    | call op k => exact ⟨hg, fun b hb => nomatch hb⟩
    | loop body k => exact ⟨hg, fun b hb => nomatch hb⟩
  · exact (h _ _ hp).2 a rfl q s' hf

theorem Stable.wp_ret {P : σ → Prop} (hP : Stable M P) {a : α} {Q : α → σ → Prop} {s : σ}
    (hG : ∀ s, P s → G none s) (hQ : ∀ s, P s → Q a s) (hs : P s) : wp M G (.ret a) Q s := by
  apply Interactive.wp_ret
  intro s' he
  have hs' := hP.reach hs he
  exact ⟨hG s' hs', hQ s' hs'⟩

theorem Stable.wp_call {P : σ → Prop} (hP : Stable M P) {op : Op} {k : Ans op → Prog Op Ans α}
    {Q : α → σ → Prop} {s : σ} (hG : ∀ s, P s → G (some op) s)
    (hk : ∀ s x s', P s → M.act op s x s' → wp M G (k x) Q s') (hs : P s) :
    wp M G (.call op k) Q s := by
  apply Interactive.wp_call
  intro s' he
  have hs' := hP.reach hs he
  exact ⟨hG s' hs', fun x s'' hact => hk s' x s'' hs' hact⟩

/-- The loop rule: `J` is re-established by every round that goes on. -/
theorem wp_loop {body : Prog Op Ans (Option β)} {k : β → Prog Op Ans α} {Q : α → σ → Prop}
    (J : σ → Prop) (hstable : Stable M J) (hguard : ∀ s, J s → G none s)
    (hbody : ∀ s, J s → wp M G body (fun o s' =>
      match o with
      | none => J s'
      | some b => wp M G (k b) Q s') s) {s : σ} (hs : J s) :
    wp M G (.loop body k) Q s := by
  intro q s' hr
  -- The invariant of the run: still at the loop, inside a round, or past the loop.
  have key : (q = .loop body k ∧ J s') ∨
      (∃ p' s₁, J s₁ ∧ Reach M (body, s₁) (p', s') ∧ q = p'.bind (again body k)) ∨
      ∃ b s₁, wp M G (k b) Q s₁ ∧ Reach M (k b, s₁) (q, s') := by
    generalize hc : (q, s') = c at hr
    induction hr generalizing q s' with
    | refl =>
      cases hc
      exact Or.inl ⟨rfl, hs⟩
    | @tail c₁ c₂ _ hstep ih =>
      obtain ⟨q₁, t⟩ := c₁
      cases hc
      rcases ih q₁ t rfl with ⟨rfl, hJ⟩ | ⟨p', s₁, hJ, hp, rfl⟩ | ⟨b, s₁, hw, hk⟩
      · cases hstep with
        | loop => exact Or.inr (Or.inl ⟨body, s', hJ, .refl, rfl⟩)
        | env he => exact Or.inl ⟨rfl, hstable _ _ hJ he⟩
      · rcases step_bind hstep with ⟨p'', hq, hs'⟩ | ⟨o, rfl, hs'⟩
        · exact Or.inr (Or.inl ⟨p'', s₁, hJ, hp.tail hs', hq⟩)
        · have hpost := (hbody s₁ hJ _ _ hp).2 o rfl
          cases o with
          | none =>
            cases hs' with
            | loop => exact Or.inr (Or.inl ⟨body, s', hpost, .refl, rfl⟩)
            | env he => exact Or.inl ⟨rfl, hstable _ _ hpost he⟩
          | some b => exact Or.inr (Or.inr ⟨b, t, hpost, .single hs'⟩)
      · exact Or.inr (Or.inr ⟨b, s₁, hw, hk.tail hstep⟩)
  rcases key with ⟨rfl, hJ⟩ | ⟨p', s₁, hJ, hp, rfl⟩ | ⟨b, s₁, hw, hk⟩
  · exact ⟨hguard s' hJ, fun a ha => nomatch ha⟩
  · obtain ⟨hg, hret⟩ := hbody s₁ hJ p' s' hp
    cases p' with
    | ret o =>
      have hpost := hret o rfl
      cases o with
      | none => exact ⟨hguard s' hpost, fun a ha => nomatch ha⟩
      | some b => exact hpost _ _ .refl
    | call op k' => exact ⟨hg, fun a ha => nomatch ha⟩
    | loop body' k' => exact ⟨hg, fun a ha => nomatch ha⟩
  · exact hw q s' hk

def Closed (M : Machine Op Ans σ) : Prop := ∀ s s', ¬ M.env s s'

theorem Closed.eq_of_reach (hM : Closed M) {s s' : σ} (h : EnvReach M s s') : s' = s := by
  rcases Relation.ReflTransGen.cases_head h with rfl | ⟨t, he, _⟩
  · rfl
  · exact absurd he (hM s t)

theorem Closed.stable (hM : Closed M) (P : σ → Prop) : Stable M P :=
  fun s s' _ he => absurd he (hM s s')

theorem Closed.wp_ret (hM : Closed M) {a : α} {Q : α → σ → Prop} {s : σ}
    (hg : G none s) (hq : Q a s) : wp M G (.ret a) Q s := by
  apply Interactive.wp_ret
  intro s' he
  rw [hM.eq_of_reach he]
  exact ⟨hg, hq⟩

theorem Closed.wp_call (hM : Closed M) {op : Op} {k : Ans op → Prog Op Ans α} {Q : α → σ → Prop}
    {s : σ} (hg : G (some op) s) (hk : ∀ x s', M.act op s x s' → wp M G (k x) Q s') :
    wp M G (.call op k) Q s := by
  apply Interactive.wp_call
  intro s' he
  rw [hM.eq_of_reach he]
  exact ⟨hg, hk⟩

theorem Closed.reach_ret (hM : Closed M) {a b : α} {s s' : σ}
    (h : Reach M (.ret a, s) (.ret b, s')) : b = a ∧ s' = s := by
  rcases Relation.ReflTransGen.cases_head h with heq | ⟨c, hstep, _⟩
  · rw [Prod.mk.injEq, Prog.ret.injEq] at heq
    exact ⟨heq.1.symm, heq.2.symm⟩
  · obtain ⟨t, he, _⟩ := step_ret hstep
    exact absurd he (hM s t)

/-- A program whose calls all meet the guard and keep `P` meets it and keeps `P`. -/
theorem Closed.wp_keeps (hM : Closed M) {S : Op → Prop} {P : σ → Prop}
    (hG : ∀ op s, S op → G (some op) s) (hnone : ∀ s, G none s)
    (hact : ∀ op s x s', S op → P s → M.act op s x s' → P s') {p : Prog Op Ans α}
    (hp : p.Makes S) {s : σ} (hs : P s) : wp M G p (fun _ s' => P s') s := by
  induction p generalizing s with
  | ret a => exact hM.wp_ret (hnone s) hs
  | call op k ih =>
    exact hM.wp_call (hG op s hp.1) fun x s' hx => ih x (hp.2 x) (hact op s x s' hp.1 hs hx)
  | loop body k ihbody ih =>
    apply wp_loop P (hM.stable _) (fun s _ => hnone s)
    · intro s' hs'
      apply wp_mono (ihbody hp.1 hs')
      intro o s'' hs''
      cases o with
      | none => exact hs''
      | some b => exact ih b (hp.2 b) hs''
    · exact hs

/-- A program whose calls all meet the guard meets it, whatever it is answered. -/
theorem Closed.wp_makes (hM : Closed M) {S : Op → Prop} (hG : ∀ op s, S op → G (some op) s)
    (hnone : ∀ s, G none s) {p : Prog Op Ans α} (hp : p.Makes S) (s : σ) :
    wp M G p (fun _ _ => True) s :=
  hM.wp_keeps (P := fun _ => True) hG hnone (fun _ _ _ _ _ _ _ => trivial) hp trivial

/-- An automaton over calls and their answers; a call it has no transition for is forbidden. -/
structure Protocol (Op : Type) (Ans : Op → Type) (Φ : Type) where
  next : Φ → (op : Op) → Ans op → Option Φ

namespace Protocol

variable (N : Protocol Op Ans Φ)

/-- The machine whose state is the phase. -/
def machine : Machine Op Ans Φ where
  act op φ x φ' := N.next φ op x = some φ'
  env _ _ := False

/-- The call is permitted in the phase, whatever its answer. -/
def Allows (o : Option Op) (φ : Φ) : Prop := ∀ op, o = some op → ∀ x, (N.next φ op x).isSome

theorem closed : Closed N.machine := fun _ _ h => h

/-- Every run of the program from phase `φ` obeys the protocol, and a run that
returns `a` ends in a phase related to `a` by `F`. -/
def Follows (p : Prog Op Ans α) (φ : Φ) (F : α → Φ → Prop) : Prop := wp N.machine N.Allows p F φ

variable {N}

theorem allows_none (φ : Φ) : N.Allows none φ := fun _ h => nomatch h

theorem follows_ret {a : α} {φ : Φ} {F : α → Φ → Prop} (h : F a φ) : N.Follows (.ret a) φ F :=
  N.closed.wp_ret (allows_none φ) h

/-- A call follows the protocol when the rest does after every answer. -/
theorem follows_call {op : Op} {k : Ans op → Prog Op Ans α} {φ : Φ} {F : α → Φ → Prop}
    (h : ∀ x, ∃ φ', N.next φ op x = some φ' ∧ N.Follows (k x) φ' F) :
    N.Follows (.call op k) φ F := by
  apply N.closed.wp_call
  · intro op' hop x
    cases hop
    obtain ⟨φ', hn, _⟩ := h x
    rw [hn]
    rfl
  · intro x φ' hact
    obtain ⟨φ'', hn, hk⟩ := h x
    cases hn.symm.trans hact
    exact hk

theorem follows_perform {op : Op} {f : Ans op → Prog Op Ans α} {φ : Φ} {F : α → Φ → Prop}
    (h : ∀ x, ∃ φ', N.next φ op x = some φ' ∧ N.Follows (f x) φ' F) :
    N.Follows ((perform op).bind f) φ F :=
  follows_call h

theorem follows_bind {p : Prog Op Ans α} {f : α → Prog Op Ans β} {φ : Φ} {F : β → Φ → Prop}
    (h : N.Follows p φ fun a φ' => N.Follows (f a) φ' F) : N.Follows (p.bind f) φ F :=
  wp_bind h

theorem follows_mono {p : Prog Op Ans α} {φ : Φ} {F F' : α → Φ → Prop} (h : N.Follows p φ F)
    (hF : ∀ a φ', F a φ' → F' a φ') : N.Follows p φ F' :=
  wp_mono h hF

theorem follows_loop {body : Prog Op Ans (Option β)} {k : β → Prog Op Ans α} {φ : Φ}
    {F : α → Φ → Prop} (h : N.Follows body φ fun o φ' =>
      match o with
      | none => φ' = φ
      | some b => N.Follows (k b) φ' F) : N.Follows (.loop body k) φ F := by
  apply wp_loop (fun φ' => φ' = φ) (N.closed.stable _) (fun φ' _ => allows_none φ')
  · rintro _ rfl
    exact h
  · rfl

/-- A machine state that is related to the current phase stays related along a run. -/
theorem Follows.reach {p : Prog Op Ans α} {φ : Φ} {F : α → Φ → Prop} (hf : N.Follows p φ F)
    {A : Φ → σ → Prop} (hstable : ∀ φ, Stable M (A φ))
    (hact : ∀ φ op x φ' s s', N.next φ op x = some φ' → A φ s → M.act op s x s' → A φ' s')
    {s : σ} (hs : A φ s) {c : Prog Op Ans α × σ} (hr : Reach M (p, s) c) :
    ∃ φ', Reach N.machine (p, φ) (c.1, φ') ∧ A φ' c.2 := by
  induction hr with
  | refl => exact ⟨φ, .refl, hs⟩
  | @tail c₁ c₂ _ hstep ih =>
    obtain ⟨φ', hN, hA⟩ := ih
    cases hstep with
    | @call op k x s s' ha =>
      obtain ⟨φ'', hn⟩ := Option.isSome_iff_exists.mp ((hf _ _ hN).1 op rfl x)
      exact ⟨φ'', hN.tail (.call hn), hact _ _ _ _ _ _ hn hA ha⟩
    | loop => exact ⟨φ', hN.tail .loop, hA⟩
    | env he => exact ⟨φ', hN, hstable φ' _ _ hA he⟩

/-- Obeying a protocol gives weakest preconditions on every machine that carries
phase-indexed assertions along the protocol's transitions. -/
theorem Follows.wp {p : Prog Op Ans α} {φ : Φ} {F : α → Φ → Prop} (hf : N.Follows p φ F)
    {A : Φ → σ → Prop} (hstable : ∀ φ, Stable M (A φ))
    (hact : ∀ φ op x φ' s s', N.next φ op x = some φ' → A φ s → M.act op s x s' → A φ' s')
    (hguard : ∀ φ o s, N.Allows o φ → A φ s → G o s) {s : σ} (hs : A φ s) :
    wp M G p (fun a s' => ∃ φ', F a φ' ∧ A φ' s') s := by
  intro p' s' hr
  obtain ⟨φ', hN, hA⟩ := hf.reach hstable hact hs hr
  obtain ⟨hallow, hret⟩ := hf _ _ hN
  exact ⟨hguard _ _ _ hallow hA, fun a ha => ⟨φ', hret a ha, hA⟩⟩

end Protocol

/-- A call together with the answer it got. -/
abbrev Event (Op : Type) (Ans : Op → Type) := (op : Op) × Ans op

/-- The machine that answers arbitrarily and records what happened. -/
def traceMachine (Op : Type) (Ans : Op → Type) : Machine Op Ans (List (Event Op Ans)) where
  act op t x t' := t' = t ++ [⟨op, x⟩]
  env _ _ := False

theorem traceMachine_closed : Closed (traceMachine Op Ans) := fun _ _ h => h

/-- A machine together with the record of what its program did. -/
def traced (M : Machine Op Ans σ) : Machine Op Ans (σ × List (Event Op Ans)) where
  act op s x s' := M.act op s.1 x s'.1 ∧ s'.2 = s.2 ++ [⟨op, x⟩]
  env s s' := M.env s.1 s'.1 ∧ s'.2 = s.2

/-- The record alone is a run of the machine that answers arbitrarily. -/
theorem reach_traceMachine {p : Prog Op Ans α} {s : σ × List (Event Op Ans)}
    {c : Prog Op Ans α × σ × List (Event Op Ans)} (h : Reach (traced M) (p, s) c) :
    Reach (traceMachine Op Ans) (p, s.2) (c.1, c.2.2) := by
  induction h with
  | refl => exact .refl
  | tail _ hstep ih =>
    cases hstep with
    | call hact => exact ih.tail (.call hact.2)
    | loop => exact ih.tail .loop
    | env he =>
      rw [he.2]
      exact ih

/-- The phase after a word of events, if the protocol permits the word. -/
def Protocol.after (N : Protocol Op Ans Φ) : Φ → List (Event Op Ans) → Option Φ
  | φ, [] => some φ
  | φ, e :: t => (N.next φ e.1 e.2).bind fun φ' => N.after φ' t

theorem Protocol.after_append (N : Protocol Op Ans Φ) (φ : Φ) (t t' : List (Event Op Ans)) :
    N.after φ (t ++ t') = (N.after φ t).bind fun φ' => N.after φ' t' := by
  induction t generalizing φ with
  | nil => rfl
  | cons e t ih =>
    simp only [List.cons_append, after]
    cases N.next φ e.1 e.2 with
    | none => rfl
    | some φ' => exact ih φ'

/-- The trace of a program that follows a protocol is a word of the protocol. -/
theorem Protocol.Follows.trace {N : Protocol Op Ans Φ} {p p' : Prog Op Ans α} {φ : Φ}
    {F : α → Φ → Prop} (hf : N.Follows p φ F) {t : List (Event Op Ans)}
    (hr : Reach (traceMachine Op Ans) (p, []) (p', t)) :
    ∃ φ', N.after φ t = some φ' ∧ N.Allows p'.head φ' ∧ ∀ a, p' = .ret a → F a φ' := by
  obtain ⟨φ', hN, hA⟩ := hf.reach (M := traceMachine Op Ans) (A := fun φ' t => N.after φ t = some φ')
    (fun _ => traceMachine_closed.stable _) (fun φ₁ op x φ₂ t t' hn hA ht => by
      subst ht
      rw [N.after_append, hA]
      simpa only [Option.bind_some, after] using congrArg (·.bind some) hn) rfl hr
  exact ⟨φ', hA, (hf _ _ hN).1, (hf _ _ hN).2⟩

end Interactive
