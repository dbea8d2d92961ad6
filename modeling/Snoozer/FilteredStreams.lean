import Snoozer.FilteredWait
import Snoozer.WaitTermination

/-! The filtered waits as functions of the value streams: the first load that
differs, or the first late deadline check, decides the call, whatever the
strategy does between two polls. -/
namespace Snoozer
open Interactive

variable {V : Type}

/-- The machine that answers from the streams. -/
def Streams.machine (w : Streams V) : Machine (WaitOp V) (WaitAns V) (List (WaitEvent V)) where
  act op t x t' := x = w.answer t op ∧ t' = t ++ [⟨op, x⟩]
  env _ _ := False

theorem Streams.machine_closed (w : Streams V) : Closed w.machine := fun _ _ h => h

theorem Streams.reach_of_returns {α : Type} {w : Streams V} {p : WaitProg V α} {a : α}
    {t t' : List (WaitEvent V)} (h : Returns w.handler p t a t') :
    Reach w.machine (p, t) (.ret a, t') :=
  Interactive.reach_of_returns (M := w.machine) (fun _ _ => ⟨rfl, rfl⟩) h

/-- The `j`-th deadline check, `Deadline::new` having used reading 0, is early. -/
def Streams.Early (w : Streams V) (deadline : Option Deadline) (j : ℕ) : Prop :=
  ∀ d, deadline = some d → d.elapsed (w.clock (j + 1)) < d.timeout

/-- The first `n` polls decided nothing. -/
structure PolledUpTo (w : Streams V) (expected : V) (deadline : Option Deadline) (n : ℕ) : Prop where
  loads : ∀ j < n, w.loads j = expected
  checks : ∀ j < n, w.Early deadline j

/-- Clock readings made once `n` polls are complete. -/
def ticks (deadline : Option Deadline) (n : ℕ) : ℕ := if deadline.isSome then n + 1 else 0

/-- Where the streams stand in each phase of a raw wait that began after `n₀` loads. -/
def StreamFacts (w : Streams V) (expected : V) (deadline : Option Deadline) (n₀ : ℕ)
    (φ : RawPhase V) (t : List (WaitEvent V)) : Prop :=
  match φ with
  | .polling | .waited => PolledUpTo w expected deadline (loadsOf t).length ∧
      (clocksOf t).length = ticks deadline (loadsOf t).length ∧ n₀ ≤ (loadsOf t).length
  | .rechecked => PolledUpTo w expected deadline (loadsOf t).length ∧
      (clocksOf t).length = ticks deadline (loadsOf t).length ∧ n₀ < (loadsOf t).length
  | .polled | .waitedPolled => ∃ m, (loadsOf t).length = m + 1 ∧
      (clocksOf t).length = ticks deadline m ∧ PolledUpTo w expected deadline m ∧
      w.loads m = expected ∧ n₀ ≤ m
  | .changed v => ∃ k, (loadsOf t).length = k + 1 ∧ (clocksOf t).length = ticks deadline k ∧
      PolledUpTo w expected deadline k ∧ v = w.loads k ∧ v ≠ expected
  | .expired => ∃ i d, deadline = some d ∧ (loadsOf t).length = i + 1 ∧
      (clocksOf t).length = ticks deadline (i + 1) ∧ PolledUpTo w expected deadline i ∧
      w.loads i = expected ∧ d.timeout ≤ d.elapsed (w.clock (i + 1)) ∧
      ∃ t₀, t = t₀ ++ [⟨.instantNow, w.clock (i + 1)⟩]

/-- A poll that saw the expected value before the deadline is one more. -/
theorem polledUpTo_succ {w : Streams V} {expected : V} {deadline : Option Deadline} {n : ℕ}
    (h : PolledUpTo w expected deadline n) (hl : w.loads n = expected) (hc : w.Early deadline n) :
    PolledUpTo w expected deadline (n + 1) := by
  constructor
  · intro j hj
    rcases Nat.lt_succ_iff_lt_or_eq.mp hj with hj | rfl
    · exact h.loads j hj
    · exact hl
  · intro j hj
    rcases Nat.lt_succ_iff_lt_or_eq.mp hj with hj | rfl
    · exact h.checks j hj
    · exact hc

theorem early_of_none {w : Streams V} {deadline : Option Deadline} (hd : deadline = none) (j : ℕ) :
    w.Early deadline j := by
  intro d h
  cases hd.symm.trans h

section Facts

variable {w : Streams V} {expected : V} {deadline : Option Deadline} {n₀ : ℕ} {t : List (WaitEvent V)}

theorem answer_load {op : WaitOp V} {a : ℕ} {o : MemOrdering} {v : V}
    (he : (⟨op, w.answer t op⟩ : WaitEvent V) = ⟨.load a o, v⟩) :
    w.loads (loadsOf t).length = v := by
  obtain ⟨rfl, hx⟩ := Sigma.mk.inj he
  exact eq_of_heq hx

theorem answer_clock {op : WaitOp V} {now : ℕ}
    (he : (⟨op, w.answer t op⟩ : WaitEvent V) = ⟨.instantNow, now⟩) :
    w.clock (clocksOf t).length = now := by
  obtain ⟨rfl, hx⟩ := Sigma.mk.inj he
  exact eq_of_heq hx

/-- Each event moves the streams to where the next phase says they are. -/
theorem streamFacts_step (atomic : WaitableAtomic) (op : WaitOp V) {φ φ' : RawPhase V}
    (hs : RawStep atomic expected deadline φ ⟨op, w.answer t op⟩ φ')
    (hf : StreamFacts w expected deadline n₀ φ t) :
    StreamFacts w expected deadline n₀ φ' (t ++ [⟨op, w.answer t op⟩]) := by
  generalize he : (⟨op, w.answer t op⟩ : WaitEvent V) = e at hs ⊢
  cases hs with
  | pollUntimed hd =>
    obtain ⟨hp, hc, h₀⟩ := hf
    have hnext := polledUpTo_succ hp (answer_load he) (early_of_none hd _)
    exact ⟨by simpa [loadedValue] using hnext, by simp [hc, ticks, hd, clockReading],
      by simp [loadedValue]; omega⟩
  | pollTimed hd =>
    obtain ⟨hp, hc, h₀⟩ := hf
    exact ⟨_, by simp [loadedValue], by simp [hc, clockReading], hp, answer_load he, h₀⟩
  | recheckUntimed hd =>
    obtain ⟨hp, hc, h₀⟩ := hf
    have hnext := polledUpTo_succ hp (answer_load he) (early_of_none hd _)
    exact ⟨by simpa [loadedValue] using hnext, by simp [hc, ticks, hd, clockReading],
      by simp [loadedValue]; omega⟩
  | recheckTimed hd =>
    obtain ⟨hp, hc, h₀⟩ := hf
    exact ⟨_, by simp [loadedValue], by simp [hc, clockReading], hp, answer_load he, h₀⟩
  | change hφ hv =>
    rcases hφ with rfl | rfl
    all_goals
      obtain ⟨hp, hc, _⟩ := hf
      exact ⟨_, by simp [loadedValue], by simp [hc, clockReading], hp, (answer_load he).symm, hv⟩
  | early hd hφ hlt =>
    rcases hφ with ⟨rfl, rfl⟩ | ⟨rfl, rfl⟩
    all_goals
      obtain ⟨m, hl, hc, hp, hm, h₀⟩ := hf
      have hnow := answer_clock he
      have hearly : w.Early deadline m := by
        intro d' hd'
        cases hd.symm.trans hd'
        rw [hc, ticks, hd] at hnow
        simp only [Option.isSome_some, ↓reduceIte] at hnow
        rwa [hnow]
      have hnext := polledUpTo_succ hp hm hearly
      refine ⟨by simpa [loadedValue, hl] using hnext, ?_, by simp [loadedValue, hl]; omega⟩
      simp [clockReading, loadedValue, hc, hl, ticks, hd]
  | late hd hφ hl =>
    have hclk : ∃ m, (loadsOf t).length = m + 1 ∧ (clocksOf t).length = ticks deadline m ∧
        PolledUpTo w expected deadline m ∧ w.loads m = expected := by
      rcases hφ with rfl | rfl
      all_goals
        obtain ⟨m, hl, hc, hp, hm, _⟩ := hf
        exact ⟨m, hl, hc, hp, hm⟩
    obtain ⟨m, hlen, hc, hp, hm⟩ := hclk
    have hnow := answer_clock he
    rw [hc, ticks, hd] at hnow
    simp only [Option.isSome_some, ↓reduceIte] at hnow
    subst hnow
    exact ⟨m, _, hd, by simp [loadedValue, hlen], by simp [clockReading, hc, ticks, hd], hp, hm, hl,
      t, rfl⟩
  | block hb =>
    obtain ⟨hvl, hvc⟩ := block_event hb
    simpa [StreamFacts, hvl, hvc] using hf
  | idle hi =>
    obtain ⟨hvl, hvc, _⟩ := silent_event hi
    simpa [StreamFacts, hvl, hvc] using hf

end Facts

theorem streamFacts_assertion [DecidableEq V] (w : Streams V) (atomic : WaitableAtomic) (expected : V)
    (deadline : Option Deadline) (n₀ : ℕ) :
    RawAssertion w.machine (fun _ _ => True) atomic expected deadline
      (StreamFacts w expected deadline n₀) := by
  refine ⟨fun φ => w.machine_closed.stable _, ?_, fun _ _ _ _ _ => trivial, ?_⟩
  · rintro φ ⟨op, x⟩ φ' t t' hs hf ⟨hx, ht⟩
    dsimp only at hx ht
    subst hx ht
    exact streamFacts_step atomic op hs hf
  · rintro t ⟨hp, hc, hlt⟩
    exact ⟨hp, hc, Nat.le_of_lt hlt⟩

section Termination

variable [DecidableEq V] {w : Streams V} {atomic : WaitableAtomic} {expected : V}
  {deadline : Option Deadline} {K : ℕ}

/-- Poll `K` decides the call: its load differs or its deadline check is late. -/
def Decisive (w : Streams V) (expected : V) (deadline : Option Deadline) (K : ℕ) : Prop :=
  w.loads K ≠ expected ∨ ¬ w.Early deadline K

omit [DecidableEq V] in
theorem le_of_decisive (hK : Decisive w expected deadline K) {n : ℕ}
    (hp : PolledUpTo w expected deadline n) : n ≤ K := by
  by_contra hlt
  rcases hK with hl | he
  · exact hl (hp.loads K (Nat.not_le.mp hlt))
  · exact he (hp.checks K (Nat.not_le.mp hlt))

omit [DecidableEq V] in
theorem Streams.returns_load {α : Type} {a : ℕ} {o : MemOrdering} {k : V → WaitProg V α}
    {t t' : List (WaitEvent V)} {r : α}
    (h : Returns w.handler (k (w.loads (loadsOf t).length))
      (t ++ [⟨.load a o, w.loads (loadsOf t).length⟩]) r t') :
    Returns w.handler (.call (.load a o) k) t r t' :=
  returns_call h

theorem busySpin_changed {t : List (WaitEvent V)} (hv : w.loads (loadsOf t).length ≠ expected) :
    Returns w.handler (busySpinWaitRaw atomic expected deadline) t
      (.changed (w.loads (loadsOf t).length))
      (t ++ [⟨.load atomic.address .acquire, w.loads (loadsOf t).length⟩]) := by
  simp only [busySpinWaitRaw, Prog.monad_bind_eq, Prog.pure_eq_ret, loadAcquire_bind]
  refine returns_loop (w.returns_load ?_)
  beta_reduce
  rw [if_pos hv]
  exact returns_ret _ _

/-- One round of the busy wait that sees the expected value. -/
theorem busySpin_same {t t' t'' : List (WaitEvent V)} {r : WaitTimeoutResult V} {b : Bool}
    (hv : w.loads (loadsOf t).length = expected)
    (hd : Returns w.handler (deadlineExpired deadline)
      (t ++ [⟨.load atomic.address .acquire, w.loads (loadsOf t).length⟩]) b t')
    (hr : if b then r = .timedOut ∧ t'' = t' else
      Returns w.handler (busySpinWaitRaw atomic expected deadline) (t' ++ [⟨.spinLoop, ()⟩]) r t'') :
    Returns w.handler (busySpinWaitRaw atomic expected deadline) t r t'' := by
  simp only [busySpinWaitRaw, Prog.monad_bind_eq, Prog.pure_eq_ret, loadAcquire_bind] at hr ⊢
  refine returns_loop (w.returns_load ?_)
  beta_reduce
  rw [if_neg (not_not_intro hv), Prog.bind_assoc]
  apply returns_bind hd
  cases b with
  | true =>
    obtain ⟨rfl, rfl⟩ := hr
    exact returns_ret _ _
  | false => exact returns_call hr

omit [DecidableEq V] in
/-- A check reads the clock once and answers by what it reads. -/
theorem deadlineExpired_returns (d : Deadline) (t : List (WaitEvent V)) :
    Returns w.handler (deadlineExpired (some d)) t
      (decide (d.timeout ≤ d.elapsed (w.clock (clocksOf t).length)))
      (t ++ [⟨.instantNow, w.clock (clocksOf t).length⟩]) := by
  simp only [deadlineExpired, Deadline.remaining, Prog.monad_bind_eq, Prog.pure_eq_ret,
    instantNow_bind, Prog.call_bind]
  apply returns_call
  change Returns w.handler
    (Prog.bind (if d.timeout ≤ d.elapsed (w.clock (clocksOf t).length) then _ else _) _) _ _ _
  by_cases hl : d.timeout ≤ d.elapsed (w.clock (clocksOf t).length)
  · rw [if_pos hl, decide_eq_true hl]
    exact returns_ret _ _
  · rw [if_neg hl, decide_eq_false hl]
    exact returns_ret _ _
/-- One round of `BusySpin` returns a result or makes one more load. -/
theorem busySpin_round {n₀ : ℕ} {t : List (WaitEvent V)}
    (hf : StreamFacts w expected deadline n₀ .polling t) :
    (∃ r t', Returns w.handler (busySpinWaitRaw atomic expected deadline) t r t') ∨
      ∃ t₁, StreamFacts w expected deadline n₀ .polling t₁ ∧
        (loadsOf t₁).length = (loadsOf t).length + 1 ∧
        ∀ r t', Returns w.handler (busySpinWaitRaw atomic expected deadline) t₁ r t' →
          Returns w.handler (busySpinWaitRaw atomic expected deadline) t r t' := by
  let load : WaitEvent V := ⟨.load atomic.address .acquire, w.loads (loadsOf t).length⟩
  by_cases hv : w.loads (loadsOf t).length = expected
  · cases deadline with
    | none =>
      have hf₁ : StreamFacts w expected none n₀ .polling (t ++ [load]) :=
        streamFacts_step atomic (.load atomic.address .acquire) (hv ▸ .pollUntimed rfl) hf
      refine Or.inr ⟨t ++ [load] ++ [⟨.spinLoop, ()⟩],
        streamFacts_step atomic .spinLoop (.idle rfl) hf₁, by simp [load, loadedValue], ?_⟩
      exact fun r t' hr => busySpin_same hv (returns_ret false _) hr
    | some d =>
      have hf₁ : StreamFacts w expected (some d) n₀ .polled (t ++ [load]) :=
        streamFacts_step atomic (.load atomic.address .acquire) (hv ▸ .pollTimed rfl) hf
      have hd := deadlineExpired_returns (w := w) d (t ++ [load])
      by_cases hl : d.timeout ≤ d.elapsed (w.clock (clocksOf (t ++ [load])).length)
      · rw [decide_eq_true hl] at hd
        exact Or.inl ⟨.timedOut, _, busySpin_same hv hd ⟨rfl, rfl⟩⟩
      · rw [decide_eq_false hl] at hd
        have hf₂ := streamFacts_step atomic .instantNow
          (.early rfl (Or.inl ⟨rfl, rfl⟩) (Nat.not_le.mp hl)) hf₁
        refine Or.inr ⟨_, streamFacts_step atomic .spinLoop (.idle rfl) hf₂,
          by simp [load, loadedValue, Streams.answer], ?_⟩
        exact fun r t' hr => busySpin_same hv hd hr
  · exact Or.inl ⟨_, _, busySpin_changed hv⟩

/-- The busy wait ends by the decisive load at the latest. -/
theorem busySpin_returns (hK : Decisive w expected deadline K) {n₀ : ℕ} (m : ℕ)
    (t : List (WaitEvent V)) (hm : K - (loadsOf t).length = m)
    (hf : StreamFacts w expected deadline n₀ .polling t) :
    ∃ r t', Returns w.handler (busySpinWaitRaw atomic expected deadline) t r t' := by
  induction m generalizing t with
  | zero =>
    rcases busySpin_round hf with hr | ⟨t₁, hf₁, hlen, _⟩
    · exact hr
    · have := le_of_decisive hK hf₁.1
      omega
  | succ m ih =>
    rcases busySpin_round hf with hr | ⟨t₁, hf₁, hlen, hback⟩
    · exact hr
    · obtain ⟨r, t', hr⟩ := ih t₁ (by omega) hf₁
      exact ⟨r, t', hback r t' hr⟩

variable (atomic) in
/-- A raw wait that starts before the decisive poll returns. -/
theorem waitRaw_returns (strategy : WaitStrategy) (hK : Decisive w expected deadline K) {n₀ : ℕ}
    {t : List (WaitEvent V)} (hf : StreamFacts w expected deadline n₀ .polling t) :
    ∃ r t', Returns w.handler (strategy.waitRaw atomic expected deadline) t r t' ∧
      StreamFacts w expected deadline n₀ (.returning r) t' := by
  obtain ⟨r, t', hr⟩ : ∃ r t',
      Returns w.handler (strategy.waitRaw atomic expected deadline) t r t' := by
    by_cases hs : strategy = .busySpin
    · subst hs
      exact busySpin_returns hK _ t rfl hf
    · exact (waitRaw_loopFree atomic expected deadline strategy hs).returns t
  refine ⟨r, t', hr, ?_⟩
  have hwp := (streamFacts_assertion w atomic expected deadline n₀).waitRaw strategy hf
  exact (hwp _ _ (Streams.reach_of_returns hr)).2 r rfl

variable (atomic) in
/-- Retrying raw waits until `decision` is made ends by the decisive poll. -/
theorem retry_returns {β : Type} (strategy : WaitStrategy)
    (decision : WaitTimeoutResult V → Option β) (hK : Decisive w expected deadline K)
    (hdec : ∀ n₀ r t, StreamFacts w expected deadline n₀ (.returning r) t → decision r = none →
      r = .unclassified) (m : ℕ) (t : List (WaitEvent V)) (hm : K + 1 - (loadsOf t).length = m)
    (hf : StreamFacts w expected deadline 0 .polling t) :
    ∃ b t', Returns w.handler (.loop ((strategy.waitRaw atomic expected deadline).bind
      fun r => .ret (decision r)) .ret) t b t' := by
  induction m using Nat.strongRecOn generalizing t with
  | ind m ih =>
    have hle := le_of_decisive hK hf.1
    -- Counting from here, an unclassified return has made at least one load.
    have hf₀ : StreamFacts w expected deadline (loadsOf t).length .polling t :=
      ⟨hf.1, hf.2.1, Nat.le_refl _⟩
    obtain ⟨r, t', hr, hfacts⟩ := waitRaw_returns atomic strategy hK hf₀
    cases hd : decision r with
    | some b =>
      refine ⟨b, t', returns_loop ?_⟩
      rw [Prog.bind_assoc]
      refine returns_bind hr ?_
      rw [Prog.ret_bind, hd]
      exact returns_ret b t'
    | none =>
      cases hdec _ r t' hfacts hd
      obtain ⟨hp, hc, hlt⟩ := hfacts
      obtain ⟨b, t'', hb⟩ := ih (K + 1 - (loadsOf t').length) (by omega) t' rfl
        ⟨hp, hc, Nat.zero_le _⟩
      refine ⟨b, t'', returns_loop ?_⟩
      rw [Prog.bind_assoc]
      refine returns_bind hr ?_
      rw [Prog.ret_bind, hd]
      exact hb

end Termination

end Snoozer
