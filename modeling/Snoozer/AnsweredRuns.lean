import Snoozer.FallibleProgram
import Snoozer.Results

/-! Which events a program without loops goes through on its way to a result: the events of its parts
one after the other, whatever the machine that answers its calls. -/
namespace Interactive

variable {Op : Type} {Ans : Op → Type} {σ ε α β : Type} {t t' : List (Event Op Ans)}

/-- With exactly these events the program returns `a`. -/
def Prog.Answered : Prog Op Ans α → List (Event Op Ans) → α → Prop
  | .ret b, t, a => t = [] ∧ b = a
  | .call op k, t, a => ∃ x rest, t = ⟨op, x⟩ :: rest ∧ (k x).Answered rest a
  | .loop _ _, _, _ => False

/-- A sequence is answered by the events of its first part followed by those of the rest. -/
theorem Prog.answered_bind {p : Prog Op Ans α} {f : α → Prog Op Ans β} {b : β} :
    (p.bind f).Answered t b ↔
      ∃ first rest a, t = first ++ rest ∧ p.Answered first a ∧ (f a).Answered rest b := by
  induction p generalizing t with
  | ret a =>
    constructor
    · exact fun h => ⟨[], t, a, rfl, ⟨rfl, rfl⟩, h⟩
    · rintro ⟨first, rest, a', rfl, ⟨rfl, rfl⟩, h⟩
      exact h
  | call op k ih =>
    constructor
    · rintro ⟨x, rest, rfl, h⟩
      obtain ⟨first, last, a, rfl, ha, hb⟩ := (ih x).mp h
      exact ⟨⟨op, x⟩ :: first, last, a, rfl, ⟨x, first, rfl, ha⟩, hb⟩
    · rintro ⟨first, last, a, rfl, ⟨x, rest, rfl, ha⟩, hb⟩
      exact ⟨x, rest ++ last, rfl, (ih x).mpr ⟨rest, last, a, rfl, ha, hb⟩⟩
  | loop body k =>
    constructor
    · exact fun h => h.elim
    · rintro ⟨first, rest, a, -, h, -⟩
      exact h.elim

theorem reach_trace_ret {a : α} {c : Prog Op Ans α × List (Event Op Ans)}
    (h : Reach (traceMachine Op Ans) (.ret a, t) c) : c = (.ret a, t) := by
  rcases Relation.ReflTransGen.cases_head h with rfl | ⟨d, hstep, -⟩
  · rfl
  · obtain ⟨s, henv, -⟩ := step_ret hstep
    exact henv.elim

/-- A last call is still to come, or its answer makes the result. -/
theorem reach_trace_call {op : Op} {result : Ans op → α} {c : Prog Op Ans α × List (Event Op Ans)}
    (h : Reach (traceMachine Op Ans) (.call op fun x => .ret (result x), t) c) :
    c = (.call op fun x => .ret (result x), t) ∨ ∃ x, c = (.ret (result x), t ++ [⟨op, x⟩]) := by
  rcases Relation.ReflTransGen.cases_head h with rfl | ⟨d, hstep, hrest⟩
  · exact Or.inl rfl
  · cases hstep with
    | @call _ _ x _ s' hact =>
      cases hact
      exact Or.inr ⟨x, reach_trace_ret hrest⟩
    | env henv => exact henv.elim

/-- Every run on a machine goes through such events. -/
theorem Prog.answered_of_reach {p : Prog Op Ans α} (hp : p.LoopFree) {a : α}
    (h : Reach (traceMachine Op Ans) (p, t) (.ret a, t')) :
    ∃ events, t' = t ++ events ∧ p.Answered events a := by
  induction p generalizing t with
  | ret b =>
    obtain ⟨ha, ht⟩ := traceMachine_closed.reach_ret h
    exact ⟨[], ht.trans (List.append_nil t).symm, rfl, ha.symm⟩
  | call op k ih =>
    rcases Relation.ReflTransGen.cases_head h with heq | ⟨c, hstep, hrest⟩
    · cases heq
    · cases hstep with
      | @call _ _ x _ s' hact =>
        cases hact
        obtain ⟨events, htrace, hanswered⟩ := ih x (hp x) hrest
        refine ⟨⟨op, x⟩ :: events, ?_, x, events, rfl, hanswered⟩
        rw [htrace, List.append_assoc]
        rfl
      | env henv => exact henv.elim
  | loop body k => exact hp.elim

/-- An answered program is a run of the machine that keeps the trace. -/
theorem Prog.Answered.reach {p : Prog Op Ans α} {a : α} (h : p.Answered t a)
    (t₀ : List (Event Op Ans)) :
    Reach (traceMachine Op Ans) (p, t₀) (.ret a, t₀ ++ t) := by
  induction p generalizing t t₀ with
  | ret b =>
    obtain ⟨rfl, rfl⟩ := h
    rw [List.append_nil]
  | call op k ih =>
    obtain ⟨x, rest, rfl, h⟩ := h
    have hrest := ih x h (t₀ ++ [⟨op, x⟩])
    rw [List.append_assoc] at hrest
    exact .head (.call rfl) hrest
  | loop body k => exact h.elim

/-- The answers of `look` make such a run. -/
theorem Prog.answered_of_answer {look : (op : Op) → Option (Ans op)} {p : Prog Op Ans α} {a : α}
    (h : p.answer look = some a) :
    ∃ t, p.Answered t a ∧ ∀ e ∈ t, look e.1 = some e.2 := by
  induction p with
  | ret b => exact ⟨[], ⟨rfl, Option.some.inj h⟩, fun _ he => absurd he List.not_mem_nil⟩
  | call op k ih =>
    obtain ⟨x, hx, hk⟩ := Option.bind_eq_some_iff.mp h
    obtain ⟨t, ht, hlook⟩ := ih x hk
    exact ⟨⟨op, x⟩ :: t, ⟨x, t, rfl, ht⟩, List.forall_mem_cons.mpr ⟨hx, hlook⟩⟩
  | loop body k => cases h

/-- At no point of a run has a program whose calls are all in `S` had another event. -/
theorem Prog.Within.trace {S : Op → Prop} {p : Prog Op Ans α} (hp : p.Within S)
    {c : Prog Op Ans α × List (Event Op Ans)} (h : Reach (traceMachine Op Ans) (p, t) c)
    (ht : ∀ e ∈ t, S e.1) : c.1.Within S ∧ ∀ e ∈ c.2, S e.1 := by
  induction h with
  | refl => exact ⟨hp, ht⟩
  | tail _ hstep ih =>
    cases hstep with
    | @call op k x s s' hact =>
      obtain ⟨⟨hop, hk⟩, hevents⟩ := ih
      cases hact
      refine ⟨hk x, fun e he => ?_⟩
      rcases List.mem_append.mp he with he | he
      · exact hevents e he
      · exact List.mem_singleton.mp he ▸ hop
    | loop => exact ih.1.elim
    | env henv => exact henv.elim

namespace Fallible

variable {p : Fallible Op Ans ε α} {f : α → Fallible Op Ans ε β} {a a' : α} {b : β} {e : ε}

/-- A result that needs no call. -/
def fromExcept (r : Except ε α) : Fallible Op Ans ε α := ExceptT.mk (Prog.ret r)

/-- With exactly these events the program returns `a` or fails. -/
def Answers (p : Fallible Op Ans ε α) (t : List (Event Op Ans)) (r : Except ε α) : Prop :=
  p.run.Answered t r

@[simp] theorem answers_pure : Answers (pure a : Fallible Op Ans ε α) t (.ok a') ↔ t = [] ∧ a = a' :=
  ⟨fun h => ⟨h.1, Except.ok.inj h.2⟩, fun h => ⟨h.1, congrArg Except.ok h.2⟩⟩

@[simp] theorem answers_throw : ¬ Answers (throw e : Fallible Op Ans ε α) t (.ok a) :=
  fun h => by cases h.2

@[simp] theorem answers_fromExcept {r : Except ε α} :
    Answers (fromExcept r : Fallible Op Ans ε α) t (.ok a) ↔ t = [] ∧ r = .ok a := Iff.rfl

@[simp] theorem answers_ask {op : Op} {x : Ans op} :
    Answers (ask op : Fallible Op Ans ε (Ans op)) t (.ok x) ↔ t = [⟨op, x⟩] := by
  constructor
  · rintro ⟨y, rest, rfl, rfl, hy⟩
    cases hy
    rfl
  · rintro rfl
    exact ⟨x, [], rfl, rfl, rfl⟩

theorem answers_bind : Answers (p >>= f) t (.ok b) ↔
    ∃ first rest a, Answers p first (.ok a) ∧ Answers (f a) rest (.ok b) ∧ t = first ++ rest := by
  apply Prog.answered_bind.trans
  constructor
  · rintro ⟨first, rest, e | a, ht, hp, hf⟩
    · cases hf.2
    · exact ⟨first, rest, a, hp, hf, ht⟩
  · rintro ⟨first, rest, a, hp, hf, ht⟩
    exact ⟨first, rest, .ok a, ht, hp, hf⟩

/-- A program that fails under a condition. -/
theorem answers_guard {c : Prop} [Decidable c] {q : Fallible Op Ans ε α} :
    Answers (if c then throw e else q) t (.ok a) ↔ ¬ c ∧ Answers q t (.ok a) := by
  by_cases hc : c
  · rw [if_pos hc]
    exact iff_of_false answers_throw fun h => h.1 hc
  · rw [if_neg hc]
    exact (and_iff_right hc).symm

section Yields

variable {look : (op : Op) → Option (Ans op)}

@[simp] theorem yields_fromExcept {r : Except ε α} :
    Yields look (fromExcept r : Fallible Op Ans ε α) a ↔ r = .ok a := Option.some_inj

theorem yields_guard {c : Prop} [Decidable c] {q : Fallible Op Ans ε α} :
    Yields look (if c then throw e else q) a ↔ ¬ c ∧ Yields look q a := by
  by_cases hc : c
  · rw [if_pos hc]
    exact iff_of_false yields_throw fun h => h.1 hc
  · rw [if_neg hc]
    exact (and_iff_right hc).symm

end Yields

/-- The events of a successful call come first. -/
theorem answers_ask_bind {op : Op} {f : Ans op → Fallible Op Ans ε β} {r : Except ε β} :
    Answers (ask op >>= f) t r ↔ ∃ x rest, Answers (f x) rest r ∧ t = ⟨op, x⟩ :: rest :=
  exists_congr fun _ => exists_congr fun _ => and_comm

theorem answers_fromExcept_bind {r : Except ε α} :
    Answers (fromExcept r >>= f) t (.ok b) ↔ ∃ a, Answers (f a) t (.ok b) ∧ r = .ok a := by
  constructor
  · intro h
    obtain ⟨first, rest, a, ⟨rfl, hr⟩, hf, rfl⟩ := answers_bind.mp h
    exact ⟨a, hf, hr⟩
  · rintro ⟨a, hf, hr⟩
    exact answers_bind.mpr ⟨[], t, a, ⟨rfl, hr⟩, hf, rfl⟩

/-- Only the error is mapped. -/
theorem answers_mapError_bind {ε' : Type} {r : Except ε' α} {g : ε' → ε} :
    Answers (fromExcept (r.mapError g) >>= f) t (.ok b) ↔ ∃ a, Answers (f a) t (.ok b) ∧ r = .ok a := by
  rw [answers_fromExcept_bind]
  simp only [Results.mapError_eq_ok]

/-- The one event that is not as those before it. -/
theorem eq_last_call {S : Op → Prop} {before : List (Event Op Ans)} {e last : Event Op Ans}
    (hbefore : ∀ e ∈ before, S e.1) (hmem : e ∈ before ++ [last]) (he : ¬ S e.1) : e = last := by
  rcases List.mem_append.mp hmem with hmem | hmem
  · exact absurd (hbefore e hmem) he
  · exact List.mem_singleton.mp hmem

/-- Where a last call decides the result, all other events are those of the program before it, and
that program has returned when the call is made. -/
theorem reach_last_call {S : Op → Prop} (hp : Within S p) (op : α → Op)
    (result : (a : α) → Ans (op a) → Except ε β)
    {c : Prog Op Ans (Except ε β) × List (Event Op Ans)}
    (h : Reach (traceMachine Op Ans)
      ((p >>= fun a => ask (op a) >>= fun x => fromExcept (result a x)).run, []) c) :
    ((∀ e ∈ c.2, S e.1) ∧ ∀ b, c.1 ≠ .ret (.ok b)) ∨
      ∃ before a x, (∀ e ∈ before, S e.1) ∧ Answers p before (.ok a) ∧
        c = (.ret (result a x), before ++ [⟨op a, x⟩]) := by
  obtain ⟨q, t⟩ := c
  have hbefore {p' : Prog Op Ans (Except ε α)} {t' : List (Event Op Ans)}
      (hr : Reach (traceMachine Op Ans) (p.run, []) (p', t')) : ∀ e ∈ t', S e.1 :=
    (Prog.Within.trace hp hr fun _ he => absurd he List.not_mem_nil).2
  rcases reach_bind h with ⟨p', hq, hr⟩ | ⟨r, before, hr, hlast⟩
  · -- the program before the call still runs, so what is bound to it has no result
    refine Or.inl ⟨hbefore hr, fun b hret => ?_⟩
    cases p' with
    | ret r =>
      cases r with
      | ok a => cases hq.symm.trans hret
      | error e => cases hq.symm.trans hret
    | call op k => cases hq.symm.trans hret
    | loop body k => cases hq.symm.trans hret
  · cases r with
    | error e =>
      cases reach_trace_ret hlast
      exact Or.inl ⟨hbefore hr, fun b hret => by cases hret⟩
    | ok a =>
      have hcall : Reach (traceMachine Op Ans)
          (.call (op a) fun x => .ret (result a x), before) (q, t) := hlast
      rcases reach_trace_call hcall with hc | ⟨x, hc⟩
      · cases hc
        exact Or.inl ⟨hbefore hr, fun b hret => by cases hret⟩
      · obtain ⟨events, hevents, hanswers⟩ :=
          Prog.answered_of_reach (Prog.Within.loopFree hp) hr
        refine Or.inr ⟨before, a, x, hbefore hr, ?_, hc⟩
        rw [hevents]
        exact hanswers

end Fallible

end Interactive
