import Mathlib.Order.Nat
import Snoozer.ParkerViews

/-! What a consumer that took the token has seen: every payload write made before
any `unpark` that the token stands for. -/
namespace Snoozer
open Interactive ReleaseAcquire

variable {L : Type} [SemilatticeSup L] [OrderBot L] {kind : PairKind} {s : TokenViews L}

/-- The invariant holds, and no call of the consumer is stuck. -/
def ViewsGuard (kind : PairKind) (o : Option (WaitOp UInt32)) (s : TokenViews L) : Prop :=
  ViewsInvariant kind s ∧ ∀ op, o = some op → ∃ x s', viewsAct op s x s'

omit [OrderBot L] in
/-- Every call of a wait is answered. -/
theorem viewsAct_progress (h : ViewsInvariant kind s) (op : WaitOp UInt32) :
    ∃ x s', viewsAct op s x s' := by
  obtain ⟨m, hm⟩ := h.consumer_at
  cases op with
  | load a o => exact ⟨m.value, _, _, m, hm, Nat.le_refl _, rfl, rfl⟩
  | compareExchange a current new success failure =>
    obtain ⟨t, m', hle, ht, hfree⟩ := h.bounded.exists_last hm
    by_cases hv : m'.value = current
    · exact ⟨.ok current, _, t, m', ht, hle, Or.inl ⟨hv, hfree, rfl, rfl⟩⟩
    · exact ⟨.error m'.value, _, t, m', ht, hle, Or.inr ⟨hv, rfl, rfl⟩⟩
  | instantNow => exact ⟨(0 : ℕ), s, rfl⟩
  | readTscOrdered => exact ⟨(0 : ℕ), s, rfl⟩
  | _ => exact ⟨(), s, rfl⟩

omit [OrderBot L] in
theorem viewsAct_other {e : WaitEvent UInt32} {s' : TokenViews L}
    (he : e.1.blocks = true ∨ e.1.silent = true ∨ e.1 = .instantNow)
    (h : viewsAct e.1 s e.2 s') : s' = s := by
  obtain ⟨op, x⟩ := e
  cases op <;> first | exact h | simp [WaitOp.blocks, WaitOp.silent] at he

/-- The token under views is a machine for the parker's logic. -/
theorem views_logic (kind : PairKind) (token : WaitableAtomic) :
    TokenLogic (tokenViews L kind) (ViewsGuard kind) token (ViewsInvariant kind)
      (fun s => ViewsInvariant kind s ∧ SeesToken s) (ViewsInvariant kind)
      (ViewsInvariant kind) where
  running_stable := viewsInvariant_stable kind
  seen_stable s s' h he :=
    ⟨viewsInvariant_stable kind s s' h.1 he, seesToken_stable kind s s' h.2 he⟩
  taken_stable := viewsInvariant_stable kind
  missed_stable := viewsInvariant_stable kind
  running_guard _ _ h := ⟨h, fun op _ => viewsAct_progress h op⟩
  taken_guard _ _ h := ⟨h, fun op _ => viewsAct_progress h op⟩
  seen_running _ h := h.1
  missed_running _ h := h
  load_missed := by
    rintro o s v s' h ⟨t, m, hm, hview, _, rfl⟩ _
    exact viewsInvariant_load h hm hview o
  load_saw := by
    rintro o s v s' h ⟨t, m, hm, hview, rfl, rfl⟩ hv
    refine ⟨viewsInvariant_load h hm hview o, m, hm, ?_⟩
    by_contra hne
    exact hv (h.stale t m hm hne).1
  load_seen := by
    rintro o s v s' h ⟨t, m, hm, hview, rfl, rfl⟩
    exact h.2.value h.1 hm hview
  exchange := by
    rintro s x s' h ⟨t, m, hm, hview, ⟨hv, hfree, rfl, rfl⟩ | ⟨hne, _⟩⟩
    · exact ⟨rfl, viewsInvariant_exchange h.1 hm hview hv hfree⟩
    · exact absurd (h.2.value h.1 hm hview) hne
  other _ _ _ he hact := viewsAct_other he hact

theorem session_views {core : ParkerCore}
    (h : Session (tokenViews L kind) core (TokenViews.initial L) s) : ViewsInvariant kind s := by
  induction h with
  | new => exact viewsInvariant_initial kind
  | interference _ henv ih => exact viewsInvariant_stable kind _ _ ih henv
  | operation call _ hr ih => exact ((views_logic kind core.token).wp_parkCall call ih _ _ hr).1.1

/-- From `s`, `take_notification` never gets stuck and can only return `true`. -/
def TakesToken (kind : PairKind) (core : ParkerCore) (s : TokenViews L) : Prop :=
  ∀ p s', Reach (tokenViews L kind) (core.takeNotification, s) (p, s') →
    p = .ret true ∨ ∃ op k x s'', p = .call op k ∧ viewsAct op s' x s''

theorem takeNotification_loopFree (core : ParkerCore) : core.takeNotification.LoopFree := by
  simp only [ParkerCore.takeNotification, Prog.monad_bind_eq, Prog.pure_eq_ret, load_bind,
    compareExchange_bind]
  exact fun _ => .ite trivial fun _ => trivial

/-- A token that has been seen is taken. -/
theorem takesToken_of_seen {core : ParkerCore} (h : ViewsInvariant kind s ∧ SeesToken s) :
    TakesToken kind core s := by
  intro p s' hr
  obtain ⟨hguard, hret⟩ := (views_logic kind core.token).takeNotification_seen h p s' hr
  cases p with
  | ret b =>
    rw [(hret b rfl).1]
    exact Or.inl rfl
  | call op k =>
    obtain ⟨x, s'', hact⟩ := hguard.2 op rfl
    exact Or.inr ⟨op, k, x, s'', rfl, hact⟩
  | loop body k => exact ((takeNotification_loopFree core).reach hr).elim

omit [OrderBot L] in
/-- Every earlier unpark of the modification order is in the view of a take. -/
theorem viewsInvariant_takes (h : ViewsInvariant kind s) : ∀ k ∈ s.takes, ∀ t m i ws,
    s.memory t = some m → t < k.time → m.tag = .unpark i ws → ∀ x ∈ ws, x ≤ k.data := by
  intro k hk t m i ws hm hlt htag x hx
  obtain ⟨mk, hmk, hle⟩ := h.taken k hk
  calc x ≤ m.data := h.published t m i ws hm htag x hx
    _ ≤ mk.data := h.ordered t k.time m mk (Nat.le_of_lt hlt) hm hmk
    _ ≤ k.data := hle

/-- Publication through coalesced tokens, at every moment of every operation of
every session; and a filtered wait that saw the token is followed by a take. -/
theorem parker_publication (kind : PairKind) (core : ParkerCore) (call : ParkCall)
    (s s' : TokenViews L) (p : WaitProg UInt32 ParkOutcome)
    (hs : Session (tokenViews L kind) core (TokenViews.initial L) s)
    (hr : Reach (tokenViews L kind) (call.program core, s) (p, s')) :
    (∀ k ∈ s'.takes, ∀ t m i ws, s'.memory t = some m → t < k.time → m.tag = .unpark i ws →
        ∀ x ∈ ws, x ≤ k.data) ∧
      (∀ v s₁, Reach (tokenViews L kind)
        (core.strategy.waitUntilDifferent core.token emptyToken, s') (.ret v, s₁) →
        TakesToken kind core s₁) ∧
      ∀ timeout v s₁, Reach (tokenViews L kind)
        (core.strategy.waitUntilDifferentTimeout core.token emptyToken timeout, s')
        (.ret (.changed v), s₁) → TakesToken kind core s₁ := by
  have hlogic := views_logic (L := L) kind core.token
  have hinv : ViewsInvariant kind s' := (hlogic.wp_parkCall call (session_views hs) _ _ hr).1.1
  refine ⟨viewsInvariant_takes hinv, fun v s₁ h₁ => ?_, fun timeout v s₁ h₁ => ?_⟩
  · exact takesToken_of_seen ((hlogic.wp_waitUntilDifferent hinv _ _ h₁).2 v rfl)
  · exact takesToken_of_seen ((hlogic.wp_waitUntilDifferentTimeout timeout hinv _ _ h₁).2 _ rfl)

/-- Two producers publish 5 and 7, their notifications coalesce, one `park` takes both. -/
theorem parker_publication_coalesced : ∃ s : TokenViews ℕ, s.takes = [⟨3, 7⟩] ∧
    ∀ k ∈ s.takes, ∀ t m i ws, s.memory t = some m → t < k.time → m.tag = .unpark i ws →
      ∀ x ∈ ws, x ≤ k.data := by
  let core : ParkerCore := ⟨⟨0⟩, .busySpin⟩
  have hfirst : Session (tokenViews ℕ .multi) core (TokenViews.initial ℕ) _ :=
    .interference (.interference .new (.write _ 0 5 (by simp)))
      (.fetchOr _ 0 0 _ rfl rfl (Nat.le_refl 0) rfl)
  have hboth : Session (tokenViews ℕ .multi) core (TokenViews.initial ℕ) _ :=
    .interference (.interference hfirst (.write _ 1 7 (by simp)))
      (.fetchOr _ 1 1 _ rfl rfl (Nat.zero_le 1) rfl)
  have htake := parker_publication (L := ℕ) .multi core .park _ _ (.ret .notified) hboth
    (.head (.call (M := tokenViews ℕ .multi) ⟨2, _, rfl, Nat.zero_le 2, rfl, rfl⟩)
      (.head (.call (M := tokenViews ℕ .multi)
        ⟨2, _, rfl, Nat.le_refl 2, Or.inl ⟨rfl, rfl, rfl, rfl⟩⟩) .refl))
  exact ⟨_, rfl, htake.1⟩

end Snoozer
