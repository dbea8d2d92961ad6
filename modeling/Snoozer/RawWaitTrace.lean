import Snoozer.RawWaitContract

/-! The raw-wait protocol read off a trace: which loads, checks and blocking
calls one terminating `wait_raw` made, and what its result says about them. -/
namespace Snoozer
open Interactive

variable {V : Type}

section Projections

variable (t t' : List (WaitEvent V)) (e : WaitEvent V)

@[simp] theorem loadsOf_append : loadsOf (t ++ t') = loadsOf t ++ loadsOf t' :=
  List.filterMap_append

@[simp] theorem clocksOf_append : clocksOf (t ++ t') = clocksOf t ++ clocksOf t' :=
  List.filterMap_append

@[simp] theorem blocksOf_append : blocksOf (t ++ t') = blocksOf t ++ blocksOf t' :=
  List.filter_append t t'

@[simp] theorem loadsOf_nil : loadsOf ([] : List (WaitEvent V)) = [] := rfl

@[simp] theorem clocksOf_nil : clocksOf ([] : List (WaitEvent V)) = [] := rfl

@[simp] theorem blocksOf_nil : blocksOf ([] : List (WaitEvent V)) = [] := rfl

@[simp] theorem loadsOf_cons : loadsOf (e :: t) = (loadedValue e).toList ++ loadsOf t := by
  simp only [loadsOf, List.filterMap_cons]
  cases loadedValue e <;> rfl

@[simp] theorem clocksOf_cons : clocksOf (e :: t) = (clockReading e).toList ++ clocksOf t := by
  simp only [clocksOf, List.filterMap_cons]
  cases clockReading e <;> rfl

@[simp] theorem blocksOf_cons :
    blocksOf (e :: t) = (if e.1.blocks then [e] else []) ++ blocksOf t := by
  simp only [blocksOf, List.filter_cons]
  split <;> rfl

end Projections

/-- A stretch of a trace in which nothing has been decided: every load saw the
expected value and every deadline check was early. -/
structure Undecided (expected : V) (deadline : Option Deadline) (t : List (WaitEvent V)) : Prop where
  loads : ∀ v ∈ loadsOf t, v = expected
  checks : ∀ now ∈ clocksOf t, ∃ d, deadline = some d ∧ d.elapsed now < d.timeout

def LoadEvent (v : V) (e : WaitEvent V) : Prop := loadedValue e = some v

/-- Nothing without a deadline, one early deadline check with one. -/
def EarlyCheck (deadline : Option Deadline) (c : List (WaitEvent V)) : Prop :=
  match deadline with
  | none => c = []
  | some d => ∃ now : ℕ, c = [⟨.instantNow, now⟩] ∧ d.elapsed now < d.timeout

/-- What the events so far look like in each phase. -/
def RawFacts (expected : V) (deadline : Option Deadline) (t : List (WaitEvent V)) :
    RawPhase V → Prop
  | .polling => Undecided expected deadline t ∧ blocksOf t = []
  | .polled => ∃ t₀ e, t = t₀ ++ [e] ∧ LoadEvent expected e ∧
      Undecided expected deadline t₀ ∧ blocksOf t₀ = []
  | .waited => ∃ t₀ b, t = t₀ ++ [b] ∧ b.1.blocks = true ∧
      Undecided expected deadline t₀ ∧ blocksOf t₀ = []
  | .waitedPolled => ∃ t₀ b e, t = t₀ ++ [b, e] ∧ b.1.blocks = true ∧ LoadEvent expected e ∧
      Undecided expected deadline t₀ ∧ blocksOf t₀ = []
  | .rechecked => ∃ t₀ b e c, t = t₀ ++ b :: e :: c ∧ b.1.blocks = true ∧ LoadEvent expected e ∧
      Undecided expected deadline t₀ ∧ blocksOf t₀ = [] ∧ EarlyCheck deadline c
  | .changed v => ∃ t₀ e, t = t₀ ++ [e] ∧ LoadEvent v e ∧ v ≠ expected ∧
      Undecided expected deadline t₀ ∧ (blocksOf t₀).length ≤ 1
  | .expired => ∃ t₀ e d, ∃ now : ℕ, t = t₀ ++ [e, ⟨.instantNow, now⟩] ∧ LoadEvent expected e ∧
      deadline = some d ∧ d.timeout ≤ d.elapsed now ∧
      Undecided expected deadline t₀ ∧ (blocksOf t₀).length ≤ 1

variable {expected : V} {deadline : Option Deadline} {t : List (WaitEvent V)}

theorem Undecided.append {t' : List (WaitEvent V)} (h : Undecided expected deadline t)
    (h' : Undecided expected deadline t') : Undecided expected deadline (t ++ t') := by
  constructor
  · intro v hv
    rw [loadsOf_append, List.mem_append] at hv
    exact hv.elim (h.loads v) (h'.loads v)
  · intro now hn
    rw [clocksOf_append, List.mem_append] at hn
    exact hn.elim (h.checks now) (h'.checks now)

theorem undecided_nil : Undecided expected deadline ([] : List (WaitEvent V)) :=
  ⟨fun _ h => absurd h (by simp), fun _ h => absurd h (by simp)⟩

theorem LoadEvent.clock {v : V} {e : WaitEvent V} (h : LoadEvent v e) :
    clockReading e = none ∧ e.1.blocks = false := by
  obtain ⟨op, x⟩ := e
  cases op <;> first | exact ⟨rfl, rfl⟩ | cases h

theorem LoadEvent.undecided {e : WaitEvent V} (h : LoadEvent expected e) :
    Undecided expected deadline [e] := by
  constructor
  · intro v hv
    have hl : loadedValue e = some expected := h
    simpa [hl] using hv
  · intro now hn
    simp [h.clock.1] at hn

theorem silent_event {e : WaitEvent V} (he : e.1.silent = true) :
    loadedValue e = none ∧ clockReading e = none ∧ e.1.blocks = false := by
  obtain ⟨op, x⟩ := e
  cases op <;> first | exact ⟨rfl, rfl, rfl⟩ | cases he

theorem block_event {e : WaitEvent V} (he : e.1.blocks = true) :
    loadedValue e = none ∧ clockReading e = none := by
  obtain ⟨op, x⟩ := e
  cases op <;> first | exact ⟨rfl, rfl⟩ | cases he

theorem undecided_of_silent {e : WaitEvent V} (hl : loadedValue e = none)
    (hc : clockReading e = none) : Undecided expected deadline [e] := by
  constructor
  · intro v hv
    simp [hl] at hv
  · intro now hn
    simp [hc] at hn

theorem undecided_of_blocks {b : WaitEvent V} (hb : b.1.blocks = true) :
    Undecided expected deadline [b] :=
  undecided_of_silent (block_event hb).1 (block_event hb).2

theorem undecided_check {d : Deadline} {now : ℕ} (hd : deadline = some d)
    (he : d.elapsed now < d.timeout) :
    Undecided expected deadline [(⟨.instantNow, now⟩ : WaitEvent V)] := by
  constructor
  · intro v hv
    simp [loadedValue] at hv
  · intro n hn
    simp only [clocksOf_cons, clockReading, clocksOf_nil, Option.toList_some, List.append_nil,
      List.mem_singleton] at hn
    exact ⟨d, hd, hn ▸ he⟩

/-- The contract of one terminating raw wait with trace `t` and result `r`. -/
structure RawWaitContract (expected : V) (deadline : Option Deadline) (t : List (WaitEvent V))
    (r : WaitTimeoutResult V) : Prop where
  changed_iff : ∀ v, r = .changed v ↔ v ≠ expected ∧
    ∃ earlier, loadsOf t = earlier ++ [v] ∧ ∀ u ∈ earlier, u = expected
  timedOut : r = .timedOut → ∃ d pre, ∃ now : ℕ, ∃ post, deadline = some d ∧
    t = pre ++ ⟨.instantNow, now⟩ :: post ∧ clocksOf post = [] ∧
    (loadsOf pre).getLast? = some expected ∧ d.timeout ≤ d.elapsed now
  unclassified : r = .unclassified → ∃ pre b e post, t = pre ++ b :: e :: post ∧
    b.1.blocks = true ∧ blocksOf (pre ++ e :: post) = [] ∧
    loadedValue e = some expected ∧ EarlyCheck deadline post
  one_block : (blocksOf t).length ≤ 1
  no_block_after_change : ∀ pre e post v, t = pre ++ e :: post → loadedValue e = some v →
    v ≠ expected → blocksOf post = []
  no_block_after_expiry : ∀ pre e post d now, t = pre ++ e :: post → clockReading e = some now →
    deadline = some d → d.timeout ≤ d.elapsed now → blocksOf post = []
  untimed : deadline = none → clocksOf t = [] ∧ r ≠ .timedOut

/-- Only the last event can decide a trace whose other events leave it undecided. -/
theorem undecided_last {t₀ s pre post : List (WaitEvent V)} {e : WaitEvent V}
    (hu : Undecided expected deadline t₀) (hs : s.length ≤ 1) (ht : t₀ ++ s = pre ++ e :: post)
    (he : ¬ Undecided expected deadline [e]) : post = [] := by
  rcases List.eq_nil_or_concat post with rfl | ⟨post', last, rfl⟩
  · rfl
  · exfalso
    have hmem : e ∈ t₀ := by
      have hlen : t₀.length + s.length = pre.length + (post'.length + 2) := by
        simpa using congrArg List.length ht
      have hpre : pre ++ e :: post' <+: t₀ := by
        have hwhole : pre ++ e :: post' <+: t₀ ++ s := ⟨[last], by rw [ht]; simp⟩
        apply List.prefix_of_prefix_length_le hwhole (List.prefix_append t₀ s)
        simp only [List.length_append, List.length_cons]
        omega
      exact hpre.subset (by simp)
    obtain ⟨l, r, rfl⟩ := List.append_of_mem hmem
    apply he
    constructor
    · intro v hv
      apply hu.loads v
      rw [loadsOf_append, List.mem_append]
      refine Or.inr ?_
      have : loadsOf (e :: r) = loadsOf [e] ++ loadsOf r := by simp
      rw [this]
      exact List.mem_append_left _ hv
    · intro now hn
      apply hu.checks now
      rw [clocksOf_append, List.mem_append]
      refine Or.inr ?_
      have : clocksOf (e :: r) = clocksOf [e] ++ clocksOf r := by simp
      rw [this]
      exact List.mem_append_left _ hn

theorem not_undecided_load {e : WaitEvent V} {v : V} (he : loadedValue e = some v)
    (hv : v ≠ expected) : ¬ Undecided expected deadline [e] :=
  fun h => hv (h.loads v (by simp [he]))

theorem not_undecided_check {e : WaitEvent V} {d : Deadline} {now : ℕ}
    (he : clockReading e = some now) (hd : deadline = some d) (hl : d.timeout ≤ d.elapsed now) :
    ¬ Undecided expected deadline [e] := by
  intro h
  obtain ⟨d', hd', hlt⟩ := h.checks now (by simp [he])
  cases hd.symm.trans hd'
  omega

theorem undecided_none {t : List (WaitEvent V)} (h : Undecided expected none t) : clocksOf t = [] := by
  apply List.eq_nil_iff_forall_not_mem.mpr
  intro now hn
  obtain ⟨d, hd, _⟩ := h.checks now hn
  cases hd

/-- What follows the blocking call of an unclassified wake. -/
theorem EarlyCheck.undecided {c : List (WaitEvent V)} (hc : EarlyCheck deadline c) :
    Undecided expected deadline c := by
  cases deadline with
  | none =>
    have hnil : c = [] := hc
    subst hnil
    exact undecided_nil
  | some d =>
    obtain ⟨now, rfl, hlt⟩ := hc
    exact undecided_check rfl hlt

theorem EarlyCheck.blocks {c : List (WaitEvent V)} (hc : EarlyCheck deadline c) :
    blocksOf c = [] := by
  cases deadline with
  | none =>
    have hnil : c = [] := hc
    rw [hnil, blocksOf_nil]
  | some d =>
    obtain ⟨now, rfl, _⟩ := hc
    rfl

/-- Every result leaves at most its last event decided, and at most one blocking call. -/
theorem rawFacts_shape {r : WaitTimeoutResult V} (hf : RawFacts expected deadline t (.returning r)) :
    (blocksOf t).length ≤ 1 ∧
      ∃ t₀ s, t = t₀ ++ s ∧ s.length ≤ 1 ∧ Undecided expected deadline t₀ := by
  cases r with
  | changed v =>
    obtain ⟨t₀, e, rfl, he, _, hu, hb⟩ := hf
    exact ⟨by simpa [he.clock.2] using hb, t₀, [e], rfl, Nat.le_refl 1, hu⟩
  | unclassified =>
    obtain ⟨t₀, b, e, c, rfl, hb, he, hu, hz, hc⟩ := hf
    refine ⟨by simp [hz, hb, he.clock.2, hc.blocks], t₀ ++ b :: e :: c, [], by simp, by simp, ?_⟩
    exact hu.append ((undecided_of_blocks hb).append (he.undecided.append hc.undecided))
  | timedOut =>
    obtain ⟨t₀, e, d, now, rfl, he, _, _, hu, hb⟩ := hf
    refine ⟨?_, t₀ ++ [e], [⟨.instantNow, now⟩], by simp, Nat.le_refl 1, hu.append he.undecided⟩
    simpa [he.clock.2, show (WaitOp.instantNow : WaitOp V).blocks = false from rfl] using hb

/-- A result other than `changed` comes from a trace without a differing load. -/
theorem rawFacts_loads {r : WaitTimeoutResult V} (hf : RawFacts expected deadline t (.returning r)) :
    (∃ v, r = .changed v) ∨ ∀ u ∈ loadsOf t, u = expected := by
  cases r with
  | changed v => exact Or.inl ⟨v, rfl⟩
  | unclassified =>
    obtain ⟨t₀, b, e, c, rfl, hb, he, hu, _, hc⟩ := hf
    have hall := hu.append ((undecided_of_blocks hb).append (he.undecided.append hc.undecided))
    exact Or.inr hall.loads
  | timedOut =>
    obtain ⟨t₀, e, d, now, rfl, he, _, _, hu, _⟩ := hf
    refine Or.inr fun u hmem => (hu.append he.undecided).loads u ?_
    simpa [show loadedValue (⟨.instantNow, now⟩ : WaitEvent V) = none from rfl] using hmem

theorem rawFacts_changed {v : V} (hf : RawFacts expected deadline t (.changed v)) :
    v ≠ expected ∧ ∃ earlier, loadsOf t = earlier ++ [v] ∧ ∀ u ∈ earlier, u = expected := by
  obtain ⟨t₀, e, rfl, he, hv, hu, _⟩ := hf
  have hl : loadedValue e = some v := he
  exact ⟨hv, loadsOf t₀, by simp [hl], hu.loads⟩

/-- Without a deadline no clock is read and nothing times out. -/
theorem rawFacts_untimed {r : WaitTimeoutResult V} (hf : RawFacts expected none t (.returning r)) :
    clocksOf t = [] ∧ r ≠ .timedOut := by
  cases r with
  | changed v =>
    obtain ⟨t₀, e, rfl, he, _, hu, _⟩ := hf
    exact ⟨by simp [undecided_none hu, he.clock.1], by simp⟩
  | unclassified =>
    obtain ⟨t₀, b, e, c, rfl, hb, he, hu, _, hc⟩ := hf
    have hall := hu.append ((undecided_of_blocks hb).append (he.undecided.append hc.undecided))
    exact ⟨undecided_none hall, by simp⟩
  | timedOut =>
    obtain ⟨_, _, _, _, _, _, hd, _⟩ := hf
    cases hd

/-- The facts of a finished wait are its contract. -/
theorem rawWaitContract_of_facts {r : WaitTimeoutResult V}
    (hf : RawFacts expected deadline t (.returning r)) :
    RawWaitContract expected deadline t r := by
  obtain ⟨hone, t₀, s, ht, hs, hu⟩ := rawFacts_shape hf
  have hlast : ∀ pre e post, t = pre ++ e :: post → ¬ Undecided expected deadline [e] →
      post = [] := fun pre e post h he => undecided_last hu hs (ht.symm.trans h) he
  refine ⟨?_, ?_, ?_, hone, ?_, ?_, ?_⟩
  · intro v
    constructor
    · rintro rfl
      exact rawFacts_changed hf
    · rintro ⟨hv, earlier, hl, _⟩
      rcases rawFacts_loads hf with ⟨w, rfl⟩ | hall
      · obtain ⟨_, earlier', hl', _⟩ := rawFacts_changed hf
        have := List.append_inj_right' (hl'.symm.trans hl) rfl
        simpa using this
      · exact absurd (hall v (by simp [hl])) hv
  · rintro rfl
    obtain ⟨t₀, e, d, now, rfl, he, hd, hl, _, _⟩ := hf
    have hv : loadedValue e = some expected := he
    exact ⟨d, t₀ ++ [e], now, [], hd, by simp, rfl, by simp [hv], hl⟩
  · rintro rfl
    obtain ⟨t₀, b, e, c, rfl, hb, he, _, hz, hc⟩ := hf
    exact ⟨t₀, b, e, c, rfl, hb, by simp [hz, he.clock.2, hc.blocks], he, hc⟩
  · intro pre e post v h he hv
    rw [hlast pre e post h (not_undecided_load he hv), blocksOf_nil]
  · intro pre e post d now h he hd hl
    rw [hlast pre e post h (not_undecided_check he hd hl), blocksOf_nil]
  · rintro rfl
    exact rawFacts_untimed hf

/-- The program ran to its end with this trace and result, against arbitrary answers. -/
def Completes {α : Type} (p : WaitProg V α) (t : List (WaitEvent V)) (r : α) : Prop :=
  Reach (traceMachine (WaitOp V) (WaitAns V)) (p, []) (.ret r, t)

/-- The values that successive loads, clock reads and counter reads return. -/
structure Streams (V : Type) where
  loads : ℕ → V
  clock : ℕ → ℕ
  tsc : ℕ → ℕ

/-- The answer to the next call after the trace `t`. -/
def Streams.answer (w : Streams V) (t : List (WaitEvent V)) : (op : WaitOp V) → WaitAns V op
  | .load _ _ => w.loads (loadsOf t).length
  | .compareExchange _ _ _ _ _ => .error (w.loads (loadsOf t).length)
  | .instantNow => w.clock (clocksOf t).length
  | .readTscOrdered => w.tsc t.length
  | .spinLoop | .yieldNow | .monitorx _ | .umonitor _ | .mwaitx _ _ | .umwaitC01 _
  | .storeHandoff => ()

/-- Answers from the streams, recording the trace. -/
def Streams.handler (w : Streams V) : Handler (WaitOp V) (WaitAns V) (List (WaitEvent V)) :=
  fun op t => (w.answer t op, t ++ [⟨op, w.answer t op⟩])

theorem completes_of_run {α : Type} {p : WaitProg V α} (w : Streams V) (n : ℕ) {r : α}
    (h : p.run w.handler n [] = some (r, t)) : Completes p t r :=
  reach_of_run (fun _ _ => rfl) n p [] h

variable [DecidableEq V] {atomic : WaitableAtomic}

omit [DecidableEq V] in
/-- One event takes the facts of a phase to the facts of the next. -/
theorem rawFacts_step {φ φ' : RawPhase V} {e : WaitEvent V}
    (hs : RawStep atomic expected deadline φ e φ') (hf : RawFacts expected deadline t φ) :
    RawFacts expected deadline (t ++ [e]) φ' := by
  cases hs with
  | pollUntimed hd =>
    have hload : LoadEvent expected ⟨.load atomic.address .acquire, expected⟩ := rfl
    exact ⟨hf.1.append hload.undecided, by simp [hf.2, hload.clock.2]⟩
  | pollTimed hd => exact ⟨t, _, rfl, rfl, hf⟩
  | recheckUntimed hd =>
    obtain ⟨t₀, b, rfl, hb, hu, hz⟩ := hf
    subst hd
    exact ⟨t₀, b, ⟨.load atomic.address .acquire, expected⟩, [], by simp, hb, rfl, hu, hz, rfl⟩
  | recheckTimed hd =>
    obtain ⟨t₀, b, rfl, hb, hu, hz⟩ := hf
    exact ⟨t₀, b, ⟨.load atomic.address .acquire, expected⟩, by simp, hb, rfl, hu, hz⟩
  | change hφ hv =>
    rcases hφ with rfl | rfl
    · exact ⟨t, _, rfl, rfl, hv, hf.1, by simp [hf.2]⟩
    · obtain ⟨t₀, b, rfl, hb, hu, hz⟩ := hf
      exact ⟨t₀ ++ [b], _, rfl, rfl, hv, hu.append (undecided_of_blocks hb), by simp [hz, hb]⟩
  | early hd hφ hlt =>
    rcases hφ with ⟨rfl, rfl⟩ | ⟨rfl, rfl⟩
    · obtain ⟨t₀, e, rfl, he, hu, hz⟩ := hf
      refine ⟨(hu.append he.undecided).append (undecided_check hd hlt), ?_⟩
      simp [hz, he.clock.2, show (WaitOp.instantNow : WaitOp V).blocks = false from rfl]
    · obtain ⟨t₀, b, e, rfl, hb, he, hu, hz⟩ := hf
      subst hd
      exact ⟨t₀, b, e, _, by simp, hb, he, hu, hz, _, rfl, hlt⟩
  | late hd hφ hl =>
    rcases hφ with rfl | rfl
    · obtain ⟨t₀, e, rfl, he, hu, hz⟩ := hf
      exact ⟨t₀, e, _, _, by simp, he, hd, hl, hu, by simp [hz]⟩
    · obtain ⟨t₀, b, e, rfl, hb, he, hu, hz⟩ := hf
      exact ⟨t₀ ++ [b], e, _, _, by simp, he, hd, hl, hu.append (undecided_of_blocks hb),
        by simp [hz, hb]⟩
  | block hb => exact ⟨t, e, rfl, hb, hf⟩
  | idle he =>
    obtain ⟨hl, hc, hb⟩ := silent_event he
    exact ⟨hf.1.append (undecided_of_silent hl hc), by simp [hf.2, hb]⟩

theorem rawFacts_of_reach {p : WaitProg V (WaitTimeoutResult V)}
    (hp : (rawProtocol atomic expected deadline).Follows p .polling RawReturns)
    {r : WaitTimeoutResult V} (hr : Completes p t r) :
    RawFacts expected deadline t (.returning r) := by
  obtain ⟨φ, hN, hA⟩ := hp.reach (A := fun φ t => RawFacts expected deadline t φ)
    (fun _ => traceMachine_closed.stable _)
    (fun φ op x φ' t t' hn hf ht => by
      subst ht
      exact rawFacts_step (rawStep_of_next hn) hf) ⟨undecided_nil, rfl⟩ hr
  have hφ : φ = .returning r := (hp _ _ hN).2 r rfl
  exact hφ ▸ hA

/-- Every strategy, spin count, configuration, expected value and deadline, and
every sequence of answers that ends the call. -/
theorem waitRaw_contract (strategy : WaitStrategy) (atomic : WaitableAtomic) (expected : V)
    (deadline : Option Deadline) (t : List (WaitEvent V)) (r : WaitTimeoutResult V)
    (h : Completes (strategy.waitRaw atomic expected deadline) t r) :
    RawWaitContract expected deadline t r :=
  rawWaitContract_of_facts (rawFacts_of_reach (waitRaw_follows atomic expected deadline strategy) h)

/-- A yield between two loads of the expected value. -/
theorem waitRaw_contract_unclassified :
    RawWaitContract 0 none [⟨.load 7 .acquire, 0⟩, ⟨.yieldNow, ()⟩, ⟨.load 7 .acquire, 0⟩]
      (.unclassified : WaitTimeoutResult ℕ) :=
  waitRaw_contract (.spinThenYield 0) ⟨7⟩ 0 none _ _
    (completes_of_run ⟨fun _ => 0, fun _ => 0, fun _ => 0⟩ 3 rfl)

end Snoozer
