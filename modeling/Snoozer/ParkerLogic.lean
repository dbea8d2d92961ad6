import Snoozer.Parker

/-! The consumer's operations need only a few facts about the machine under them:
a look at the token either misses it or sees it, and what was seen stays until it
is exchanged. From these facts, what every operation does is derived once. -/
namespace Snoozer
open Interactive

variable {σ : Type} {M : Machine (WaitOp UInt32) (WaitAns UInt32) σ}
  {G : Option (WaitOp UInt32) → σ → Prop}

theorem emptyToken_ne_notifiedToken : emptyToken ≠ notifiedToken := by decide

/-- Predicates for an operation that has taken nothing, that has also seen the
token, that has taken it, and that has just missed it. -/
structure TokenLogic (M : Machine (WaitOp UInt32) (WaitAns UInt32) σ)
    (G : Option (WaitOp UInt32) → σ → Prop) (token : WaitableAtomic)
    (Running Seen Taken Missed : σ → Prop) : Prop where
  running_stable : Stable M Running
  seen_stable : Stable M Seen
  taken_stable : Stable M Taken
  missed_stable : Stable M Missed
  running_guard : ∀ o s, Running s → G o s
  taken_guard : ∀ o s, Taken s → G o s
  seen_running : ∀ s, Seen s → Running s
  missed_running : ∀ s, Missed s → Running s
  load_missed : ∀ o s (v : UInt32) s', Running s → M.act (.load token.address o) s v s' →
    v ≠ notifiedToken → Missed s'
  load_saw : ∀ o s (v : UInt32) s', Running s → M.act (.load token.address o) s v s' →
    v ≠ emptyToken → Seen s'
  load_seen : ∀ o s (v : UInt32) s', Seen s → M.act (.load token.address o) s v s' →
    v = notifiedToken
  exchange : ∀ s x s', Seen s →
    M.act (.compareExchange token.address notifiedToken emptyToken .acquire .relaxed) s x s' →
    x = .ok notifiedToken ∧ Taken s'
  other : ∀ (e : WaitEvent UInt32) s s', e.1.blocks = true ∨ e.1.silent = true ∨
    e.1 = .instantNow → M.act e.1 s e.2 s' → s' = s

namespace TokenLogic

variable {core : ParkerCore} {Running Seen Taken Missed : σ → Prop} {s : σ}
  (H : TokenLogic M G core.token Running Seen Taken Missed)

include H

theorem load_running {o : MemOrdering} {s s' : σ} {v : UInt32} (hs : Running s)
    (hact : M.act (.load core.token.address o) s v s') : Running s' := by
  by_cases hv : v = notifiedToken
  · subst hv
    exact H.seen_running _ (H.load_saw o s _ s' hs hact emptyToken_ne_notifiedToken.symm)
  · exact H.missed_running _ (H.load_missed o s v s' hs hact hv)

/-- The `compare_exchange` of a token that was seen set always succeeds. -/
theorem wp_compareExchange {α : Type} {k : Except UInt32 UInt32 → WaitProg UInt32 α}
    {Q : α → σ → Prop} (hk : ∀ s, Taken s → wp M G (k (.ok notifiedToken)) Q s) (hs : Seen s) :
    wp M G ((core.token.compareExchange notifiedToken emptyToken .acquire .relaxed).bind k) Q s := by
  rw [compareExchange_bind]
  refine H.seen_stable.wp_call (fun s h => H.running_guard _ s (H.seen_running s h))
    (fun s x s' h hact => ?_) hs
  obtain ⟨rfl, htaken⟩ := H.exchange s x s' h hact
  exact hk s' htaken

/-- A take ends with the token or without, as its swap has found it. -/
theorem wp_takeNotification (hs : Running s) : wp M G core.takeNotification
    (fun b s' => if b then Taken s' else Missed s') s := by
  simp only [ParkerCore.takeNotification, Prog.monad_bind_eq, Prog.pure_eq_ret, load_bind]
  refine H.running_stable.wp_call (fun s h => H.running_guard _ s h) (fun s v s' h hact => ?_) hs
  split
  · next hne =>
    refine H.missed_stable.wp_ret (fun s h => H.running_guard _ s (H.missed_running s h))
      (fun s h => h) (H.load_missed _ s v s' h hact hne)
  · next hn =>
    have hv : v = notifiedToken := Decidable.not_not.mp hn
    subst hv
    have hseen := H.load_saw _ s _ s' h hact emptyToken_ne_notifiedToken.symm
    refine H.wp_compareExchange (fun s h => ?_) hseen
    exact H.taken_stable.wp_ret (fun s h => H.taken_guard _ s h) (fun s h => h) h

/-- Once the token has been seen set, the next attempt takes it. -/
theorem takeNotification_seen (hs : Seen s) :
    wp M G core.takeNotification (fun b s' => b = true ∧ Taken s') s := by
  simp only [ParkerCore.takeNotification, Prog.monad_bind_eq, Prog.pure_eq_ret, load_bind]
  refine H.seen_stable.wp_call (fun s h => H.running_guard _ s (H.seen_running s h))
    (fun s v s' h hact => ?_) hs
  have hv : v = notifiedToken := H.load_seen _ s v s' h hact
  subst hv
  rw [if_neg (not_not_intro rfl)]
  have hseen := H.load_saw _ s _ s' (H.seen_running s h) hact emptyToken_ne_notifiedToken.symm
  refine H.wp_compareExchange (fun s h => ?_) hseen
  exact H.taken_stable.wp_ret (fun s h => H.taken_guard _ s h) (fun s h => ⟨rfl, h⟩) h

omit H

/-- What the phases of a raw wait know about the token. -/
def Facts (Running Seen : σ → Prop) (deadline : Option Deadline) (φ : RawPhase UInt32) (s : σ) :
    Prop :=
  match φ with
  | .changed _ => Seen s
  | .expired => Running s ∧ deadline ≠ none
  | _ => Running s

include H

/-- A step of the raw wait keeps what the owner knows. -/
theorem facts_act {deadline : Option Deadline} {φ φ' : RawPhase UInt32} {e : WaitEvent UInt32}
    {s s' : σ} (hs : RawStep core.token emptyToken deadline φ e φ')
    (hf : Facts Running Seen deadline φ s) (hact : M.act e.1 s e.2 s') :
    Facts Running Seen deadline φ' s' := by
  cases hs with
  | pollUntimed _ => exact H.load_running hf hact
  | pollTimed _ => exact H.load_running hf hact
  | recheckUntimed _ => exact H.load_running hf hact
  | recheckTimed _ => exact H.load_running hf hact
  | change hφ hv =>
    rcases hφ with rfl | rfl
    · exact H.load_saw _ s _ s' hf hact hv
    · exact H.load_saw _ s _ s' hf hact hv
  | early _ hφ _ =>
    cases H.other _ s s' (Or.inr (Or.inr rfl)) hact
    rcases hφ with ⟨rfl, rfl⟩ | ⟨rfl, rfl⟩
    · exact hf
    · exact hf
  | late hd hφ _ =>
    cases H.other _ s s' (Or.inr (Or.inr rfl)) hact
    rcases hφ with rfl | rfl
    · exact ⟨hf, by simp [hd]⟩
    · exact ⟨hf, by simp [hd]⟩
  | block hb =>
    cases H.other e s s' (Or.inl hb) hact
    exact hf
  | idle hi =>
    cases H.other e s s' (Or.inr (Or.inl hi)) hact
    exact hf

/-- What the owner knows is an assertion of the raw wait. -/
theorem assertion (deadline : Option Deadline) :
    RawAssertion M G core.token emptyToken deadline (Facts Running Seen deadline) := by
  refine ⟨fun φ => ?_, fun _ _ _ _ _ hs hf hact => H.facts_act hs hf hact,
    fun φ o s _ h => ?_, fun _ h => h⟩
  · cases φ with
    | changed v => exact H.seen_stable
    | expired => exact fun s s' h he => ⟨H.running_stable s s' h.1 he, h.2⟩
    | _ => exact H.running_stable
  · cases φ with
    | changed v => exact H.running_guard o s (H.seen_running s h)
    | expired => exact H.running_guard o s h.1
    | _ => exact H.running_guard o s h

theorem facts_running {deadline : Option Deadline} {φ : RawPhase UInt32}
    (hf : Facts Running Seen deadline φ s) : Running s := by
  cases φ with
  | changed v => exact H.seen_running s hf
  | expired => exact hf.1
  | _ => exact hf

theorem wp_waitIfEqual (hs : Running s) :
    wp M G (core.strategy.waitIfEqual core.token emptyToken) (fun _ s' => Running s') s := by
  refine wp_mono ((H.assertion none).waitIfEqual core.strategy hs) ?_
  rintro _ s' ⟨r, h⟩
  exact H.facts_running h

theorem wp_waitUntilDifferent (hs : Running s) :
    wp M G (core.strategy.waitUntilDifferent core.token emptyToken) (fun _ s' => Seen s') s :=
  (H.assertion none).waitUntilDifferent core.strategy (fun _ h => h.2 rfl) hs

theorem facts_instantNow {d : Deadline} (now : ℕ) {s s' : σ} (hs : Running s)
    (hact : M.act .instantNow s now s') : Facts Running Seen (some d) .polling s' := by
  cases H.other ⟨.instantNow, now⟩ s s' (Or.inr (Or.inr rfl)) hact
  exact hs

theorem wp_waitIfEqualTimeout (timeout : ℕ) (hs : Running s) :
    wp M G (core.strategy.waitIfEqualTimeout core.token emptyToken timeout)
      (fun _ s' => Running s') s := by
  refine wp_mono (Snoozer.wp_waitIfEqualTimeout core.strategy H.running_stable
    (fun s h => H.running_guard _ s h) (fun d _ => H.assertion (some d))
    (fun now s s' h hact => H.facts_instantNow now h hact) hs) ?_
  rintro _ s' ⟨d, h⟩
  exact H.facts_running h

theorem wp_waitUntilDifferentTimeout (timeout : ℕ) (hs : Running s) :
    wp M G (core.strategy.waitUntilDifferentTimeout core.token emptyToken timeout)
      (fun r s' => match r with
        | .changed _ => Seen s'
        | .timedOut => Running s') s := by
  refine wp_mono (Snoozer.wp_waitUntilDifferentTimeout core.strategy H.running_stable
    (fun s h => H.running_guard _ s h) (fun d _ => H.assertion (some d))
    (fun now s s' h hact => H.facts_instantNow now h hact) hs) ?_
  rintro (v | _) s' ⟨d, h⟩
  · exact h
  · exact h.1

omit H

/-- How an operation ends. -/
def Done (Taken Missed : σ → Prop) (r : ParkOutcome) (s : σ) : Prop :=
  r = .notified ∧ Taken s ∨ r ≠ .notified ∧ Missed s

include H

section Operations

variable {α : Type} {f : α → ParkOutcome}

theorem wp_taken {a : α} (ha : f a = .notified) (hs : Taken s) :
    wp M G (.ret a) (fun r => Done Taken Missed (f r)) s :=
  H.taken_stable.wp_ret (fun s h => H.taken_guard _ s h) (fun _ h => Or.inl ⟨ha, h⟩) hs

theorem wp_missed {a : α} (ha : f a ≠ .notified) (hs : Missed s) :
    wp M G (.ret a) (fun r => Done Taken Missed (f r)) s :=
  H.missed_stable.wp_ret (fun s h => H.running_guard _ s (H.missed_running s h))
    (fun _ h => Or.inr ⟨ha, h⟩) hs

/-- The shape of all four: try to take, and go on only with nothing taken. -/
theorem wp_take_or {a : α} {p : WaitProg UInt32 α} (ha : f a = .notified)
    (hp : ∀ s, Missed s → wp M G p (fun r => Done Taken Missed (f r)) s) (hs : Running s) :
    wp M G (core.takeNotification.bind fun b => if b = true then .ret a else p)
      (fun r => Done Taken Missed (f r)) s := by
  apply wp_bind
  refine wp_mono (H.wp_takeNotification hs) ?_
  rintro (_ | _) s' h
  · exact hp s' h
  · exact H.wp_taken ha h

/-- After a filtered wait has seen the token, `debug_assert!(consumed)` holds. -/
theorem wp_take_seen {a : α} (ha : f a = .notified) (hs : Seen s) :
    wp M G (core.takeNotification.bind fun _ => .ret a) (fun r => Done Taken Missed (f r)) s := by
  apply wp_bind
  refine wp_mono (H.takeNotification_seen hs) ?_
  rintro b s' ⟨_, h⟩
  exact H.wp_taken ha h

end Operations

theorem wp_park (hs : Running s) :
    wp M G core.park (fun r => Done Taken Missed r.outcome) s := by
  simp only [ParkerCore.park, Prog.monad_bind_eq, Prog.pure_eq_ret]
  refine H.wp_take_or rfl (fun s h => ?_) hs
  apply wp_bind
  refine wp_mono (H.wp_waitIfEqual (H.missed_running s h)) fun _ s' h => ?_
  exact H.wp_take_or rfl (fun s h => H.wp_missed (by simp [ParkResult.outcome]) h) h

theorem wp_parkUntilNotified (hs : Running s) :
    wp M G core.parkUntilNotified (fun _ => Done Taken Missed .notified) s := by
  simp only [ParkerCore.parkUntilNotified, Prog.monad_bind_eq, Prog.pure_eq_ret]
  refine H.wp_take_or (f := fun _ => .notified) rfl (fun s h => ?_) hs
  apply wp_bind
  refine wp_mono (H.wp_waitUntilDifferent (H.missed_running s h)) fun _ s' h => ?_
  exact H.wp_take_seen (f := fun _ => .notified) rfl h

theorem wp_parkTimeout (timeout : ℕ) (hs : Running s) :
    wp M G (core.parkTimeout timeout) (fun r => Done Taken Missed r.outcome) s := by
  simp only [ParkerCore.parkTimeout, Prog.monad_bind_eq, Prog.pure_eq_ret]
  refine H.wp_take_or rfl (fun s h => ?_) hs
  apply wp_bind
  refine wp_mono (H.wp_waitIfEqualTimeout timeout (H.missed_running s h)) fun r s' h => ?_
  refine H.wp_take_or rfl (fun s h => ?_) h
  cases r with
  | changed v => exact H.wp_missed (by simp [ParkTimeoutResult.outcome]) h
  | unclassified => exact H.wp_missed (by simp [ParkTimeoutResult.outcome]) h
  | timedOut => exact H.wp_missed (by simp [ParkTimeoutResult.outcome]) h

theorem wp_parkUntilNotifiedTimeout (timeout : ℕ) (hs : Running s) :
    wp M G (core.parkUntilNotifiedTimeout timeout) (fun r => Done Taken Missed r.outcome) s := by
  simp only [ParkerCore.parkUntilNotifiedTimeout, Prog.monad_bind_eq, Prog.pure_eq_ret]
  refine H.wp_take_or rfl (fun s h => ?_) hs
  apply wp_bind
  refine wp_mono (H.wp_waitUntilDifferentTimeout timeout (H.missed_running s h)) fun r s' h => ?_
  cases r with
  | changed v => exact H.wp_take_seen rfl h
  | timedOut =>
    exact H.wp_take_or rfl (fun s h => H.wp_missed (by simp [NotificationTimeoutResult.outcome]) h) h

theorem wp_done {r : ParkOutcome} (hs : Done Taken Missed r s) :
    wp M G (.ret r) (Done Taken Missed) s := by
  rcases hs with ⟨hr, h⟩ | ⟨hr, h⟩
  · exact H.wp_taken (f := id) hr h
  · exact H.wp_missed (f := id) hr h

/-- Every operation keeps the guard throughout and ends as its result says. -/
theorem wp_parkCall (call : ParkCall) (hs : Running s) :
    wp M G (call.program core) (Done Taken Missed) s := by
  cases call with
  | park => exact wp_bind (wp_mono (H.wp_park hs) fun _ _ h => H.wp_done h)
  | parkUntilNotified =>
    exact wp_bind (wp_mono (H.wp_parkUntilNotified hs) fun _ _ h => H.wp_done h)
  | parkTimeout timeout =>
    exact wp_bind (wp_mono (H.wp_parkTimeout timeout hs) fun _ _ h => H.wp_done h)
  | parkUntilNotifiedTimeout timeout =>
    exact wp_bind (wp_mono (H.wp_parkUntilNotifiedTimeout timeout hs) fun _ _ h => H.wp_done h)

end TokenLogic

end Snoozer
