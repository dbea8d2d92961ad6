import Snoozer.ProgramPool

/-! A cell that the first of many callers has filled: the initializer is a program on a machine
of its own, it runs once and may be cut short, and every caller waits for the one value. -/
namespace Interactive

open Prog

variable {Op : Type} {Ans : Op → Type} {σ κ α β : Type}

/-- A filled cell keeps what became of the initializer, `none` if it was cut short, and the
state in which its machine was left. -/
inductive OnceCell (σ β : Type) where
  | empty
  | running
  | full (outcome : Option β) (s : σ)

structure OnceState (σ β : Type) where
  cell : OnceCell σ β
  starts : ℕ

/-- `enter` starts the initializer of an empty cell, `await` waits for the value, `get` looks. -/
inductive OnceOp where
  | enter | await | get
  deriving DecidableEq

abbrev OnceAns (α : Type) : OnceOp → Type
  | .enter => Unit
  | .await => α
  | .get => Option α

/-- The initializer, the machine it runs on, and the value that each outcome leaves. -/
structure Initializer (Op : Type) (Ans : Op → Type) (σ β α : Type) where
  machine : Machine Op Ans σ
  program : Prog Op Ans β
  initial : σ
  settle : Option β → α

def emptyCell (σ β : Type) : OnceState σ β := ⟨.empty, 0⟩

namespace Initializer

variable (init : Initializer Op Ans σ β α)

def value : OnceCell σ β → Option α
  | .full outcome _ => some (init.settle outcome)
  | _ => none

/-- The initializer can end so: it returns, or is cut short at any point of a run. -/
def Outcome (outcome : Option β) (t : σ) : Prop :=
  ∃ q, Reach init.machine (init.program, init.initial) (q, t) ∧ ∀ b, outcome = some b → q = .ret b

def act : (op : OnceOp) → OnceState σ β → OnceAns α op → OnceState σ β → Prop
  | .enter, s, _, s' => match s.cell with
    | .empty => s' = ⟨.running, s.starts + 1⟩
    | _ => s' = s
  | .await, s, a, s' => init.value s.cell = some a ∧ s' = s
  | .get, s, x, s' => x = init.value s.cell ∧ s' = s

/-- A running initializer ends; its own steps touch nothing that a caller sees. -/
def Ends (s s' : OnceState σ β) : Prop :=
  s.cell = .running ∧ ∃ outcome t, init.Outcome outcome t ∧ s' = ⟨.full outcome t, s.starts⟩

def parties (κ : Type) : Parties κ OnceOp (OnceAns α) (OnceState σ β) where
  act _ := init.act
  env := init.Ends

/-- The initializer has been started exactly once if the cell is not empty. -/
def Sound (s : OnceState σ β) : Prop :=
  match s.cell with
  | .empty => s.starts = 0
  | .running => s.starts = 1
  | .full outcome t => s.starts = 1 ∧ init.Outcome outcome t

variable {init} {s s' : OnceState σ β} {op : OnceOp} {x : OnceAns α op} {a : α}

theorem Sound.starts_le (h : init.Sound s) : s.starts ≤ 1 := by
  obtain ⟨cell, n⟩ := s
  cases cell with
  | empty => exact Nat.le_trans (Nat.le_of_eq h) (Nat.zero_le 1)
  | running => exact Nat.le_of_eq h
  | full outcome t => exact Nat.le_of_eq h.1

/-- A step of the cell keeps it sound. -/
theorem Sound.act (h : init.Sound s) (hact : init.act op s x s') : init.Sound s' := by
  obtain ⟨cell, n⟩ := s
  cases op with
  | enter =>
    cases cell with
    | empty =>
      have hn : n = 0 := h
      have hs' : s' = ⟨.running, n + 1⟩ := hact
      rw [hs', hn]
      rfl
    | running =>
      rw [show s' = _ from hact]
      exact h
    | full outcome t =>
      rw [show s' = _ from hact]
      exact h
  | await =>
    rw [hact.2]
    exact h
  | get =>
    rw [hact.2]
    exact h

theorem Sound.ends (h : init.Sound s) (hends : init.Ends s s') : init.Sound s' := by
  obtain ⟨cell, n⟩ := s
  obtain ⟨rfl, outcome, t, hout, rfl⟩ := hends
  exact ⟨h, hout⟩

theorem Sound.outcome (h : init.Sound s) {outcome : Option β} {t : σ}
    (hcell : s.cell = .full outcome t) : init.Outcome outcome t := by
  unfold Sound at h
  rw [hcell] at h
  exact h.2

/-- Nothing happens to a full cell. -/
theorem value_act (h : init.value s.cell = some a) (hact : init.act op s x s') : s' = s := by
  obtain ⟨cell, n⟩ := s
  cases op with
  | enter =>
    cases cell with
    | empty => exact nomatch h
    | running => exact nomatch h
    | full outcome t => exact hact
  | await => exact hact.2
  | get => exact hact.2

theorem value_ends (h : init.value s.cell = some a) : ¬ init.Ends s s' := by
  rintro ⟨hcell, _⟩
  rw [hcell] at h
  exact nomatch h

end Initializer

inductive OncePhase (α : Type) where
  | idle
  | entered
  | given (a : α)
  | seen (x : Option α)

/-- A caller either enters and waits, or looks. -/
def onceProtocol (α : Type) : Protocol OnceOp (OnceAns α) (OncePhase α) where
  next
    | .idle, .enter, _ => some .entered
    | .entered, .await, a => some (.given a)
    | .idle, .get, x => some (.seen x)
    | _, _, _ => none

/-- What a caller knows of the cell. -/
def OncePhase.Knows (init : Initializer Op Ans σ β α) (s : OnceState σ β) : OncePhase α → Prop
  | .given a => init.value s.cell = some a
  | .seen (some a) => init.value s.cell = some a
  | _ => True

variable {init : Initializer Op Ans σ β α} {s s' : OnceState σ β}

theorem OncePhase.Knows.of_value {φ : OncePhase α} (h : φ.Knows init s)
    (hv : ∀ a, init.value s.cell = some a → init.value s'.cell = some a) : φ.Knows init s' := by
  cases φ with
  | idle => trivial
  | entered => trivial
  | given a => exact hv a h
  | seen x =>
    cases x with
    | none => trivial
    | some a => exact hv a h

/-- A caller knows what its own call has told it. -/
theorem OncePhase.knows_next {φ φ' : OncePhase α} {op : OnceOp} {x : OnceAns α op}
    (hnext : (onceProtocol α).next φ op x = some φ') (hact : init.act op s x s') :
    φ'.Knows init s' := by
  cases op with
  | enter =>
    cases φ with
    | idle =>
      cases hnext
      trivial
    | _ => exact nomatch hnext
  | await =>
    cases φ with
    | entered =>
      cases hnext
      rw [hact.2]
      exact hact.1
    | _ => exact nomatch hnext
  | get =>
    cases φ with
    | idle =>
      cases hnext
      rw [hact.2, hact.1]
      cases hvalue : init.value s.cell with
      | none => trivial
      | some a => exact hvalue
    | _ => exact nomatch hnext

section Callers

variable [DecidableEq κ] {R : κ → Type} {p c c' : Pool κ OnceOp (OnceAns α) R}
  {F : (k : κ) → R k → OncePhase α → Prop}

/-- The initializer is run at most once, and every caller that has a value has the cell's. -/
theorem once_reach (hp : ∀ k, (onceProtocol α).Follows (p k) .idle (F k))
    (hr : PoolReach (init.parties κ) (p, emptyCell σ β) (c, s)) :
    ∃ φ : κ → OncePhase α, (init.Sound s ∧ ∀ k, (φ k).Knows init s) ∧
      ∀ k, Reach (onceProtocol α).machine (p k, .idle) (c k, φ k) := by
  apply PoolReach.tracked (J := fun φ s => init.Sound s ∧ ∀ k, (φ k).Knows init s) hp _ _ _ hr
  · exact ⟨rfl, fun _ => trivial⟩
  · rintro k φ op x φ' s s' ⟨hsound, hknows⟩ hnext hact
    refine ⟨hsound.act hact, fun k' => ?_⟩
    by_cases hk : k' = k
    · subst hk
      rw [Function.update_self]
      exact OncePhase.knows_next hnext hact
    · rw [Function.update_of_ne hk]
      apply (hknows k').of_value
      intro a ha
      rw [Initializer.value_act ha hact]
      exact ha
  · rintro φ s s' ⟨hsound, hknows⟩ hends
    refine ⟨hsound.ends hends, fun k => (hknows k).of_value ?_⟩
    intro a ha
    exact absurd hends (Initializer.value_ends ha)

/-- Looking is the last thing a caller does with the cell. -/
theorem seen_last {γ : Type} {q q' : Prog OnceOp (OnceAns α) γ} {x : Option α}
    {φ : OncePhase α} (h : Reach (onceProtocol α).machine (q, .seen x) (q', φ)) :
    φ = .seen x := by
  generalize hd : (q', φ) = d at h
  induction h generalizing q' φ with
  | refl =>
    cases hd
    rfl
  | @tail d₁ d₂ _ hstep ih =>
    obtain ⟨q₁, φ₁⟩ := d₁
    obtain rfl := ih rfl
    cases hd
    cases hstep with
    | call hact => exact nomatch hact
    | loop => rfl
    | env he => exact he.elim

/-- Once the cell is full it stays as it is, and whoever looks from then on sees its value. -/
theorem once_later (hp : ∀ k, (onceProtocol α).Follows (p k) .idle (F k))
    (hr : PoolReach (init.parties κ) (p, emptyCell σ β) (c, s)) {a : α}
    (ha : init.value s.cell = some a) (hr' : PoolReach (init.parties κ) (c, s) (c', s')) :
    s' = s ∧ ∀ k, (∃ f, c k = .call .get f) → ∀ r, c' k = .ret r → F k r (.seen (some a)) := by
  obtain ⟨φ, _, hφ⟩ := once_reach hp hr
  have hp' : ∀ k, (onceProtocol α).Follows (c k) (φ k) (F k) :=
    fun k q ψ hq => hp k q ψ ((hφ k).trans hq)
  have htracked : ∃ ψ : κ → OncePhase α,
      (s' = s ∧ ∀ k x, φ k = .idle → ψ k = .seen x → x = some a) ∧
      ∀ k, Reach (onceProtocol α).machine (c k, φ k) (c' k, ψ k) := by
    apply PoolReach.tracked
      (J := fun ψ s' => s' = s ∧ ∀ k x, φ k = .idle → ψ k = .seen x → x = some a) hp' _ _ _ hr'
    · refine ⟨rfl, fun k x hidle hseen => ?_⟩
      rw [hidle] at hseen
      exact nomatch hseen
    · rintro k ψ op y ψ' _ t ⟨rfl, hseen⟩ hnext hact
      refine ⟨Initializer.value_act ha hact, fun k' x hidle hx => ?_⟩
      by_cases hk : k' = k
      · subst hk
        rw [Function.update_self] at hx
        subst hx
        cases op with
        | get =>
          cases hψ : ψ k' with
          | idle =>
            rw [hψ] at hnext
            cases hnext
            exact hact.1.trans ha
          | _ =>
            rw [hψ] at hnext
            exact nomatch hnext
        | _ =>
          cases hψ : ψ k' with
          | _ =>
            rw [hψ] at hnext
            exact nomatch hnext
      · rw [Function.update_of_ne hk] at hx
        exact hseen k' x hidle hx
    · rintro ψ _ t ⟨rfl, hseen⟩ hends
      exact absurd hends (Initializer.value_ends ha)
  obtain ⟨ψ, ⟨rfl, hseen⟩, hψ⟩ := htracked
  refine ⟨rfl, fun k hcall r hret => ?_⟩
  obtain ⟨f, hf⟩ := hcall
  have hidle : φ k = .idle := by
    have hallows := (hp' k _ _ .refl).1 .get (by rw [hf]; rfl) none
    cases hφk : φ k with
    | idle => rfl
    | _ =>
      rw [hφk] at hallows
      exact nomatch hallows
  have hk := hψ k
  have hF := (hp' k _ _ hk).2 r hret
  rw [hf, hidle, hret] at hk
  rcases Relation.ReflTransGen.cases_head hk with heq | ⟨d, hstep, hrest⟩
  · exact nomatch congrArg Prod.fst heq
  · cases hstep with
    | @call _ _ x _ _ hact =>
      cases hact
      have hlast := seen_last hrest
      rw [hlast, hseen k x hidle hlast] at hF
      exact hF
    | env he => exact he.elim

end Callers

end Interactive
