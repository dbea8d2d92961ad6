import Snoozer.ParkerMailbox

/-! What each of the consumer's operations does to the mailbox, under every
interleaving with the producers and over every strategy. -/
namespace Snoozer
open Interactive

/-- The operation that began at `start` has consumed nothing yet. -/
def OpRunning (start : List MailboxEvent) (s : Mailbox) : Prop :=
  MailboxInvariant s ∧ ∃ seg, s.log = start ++ seg ∧ .take ∉ seg

/-- It has seen the token, which stays until it is taken. -/
def OpSeen (start : List MailboxEvent) (s : Mailbox) : Prop :=
  OpRunning start s ∧ s.token = notifiedToken

/-- It has consumed the token once. -/
def OpTaken (start : List MailboxEvent) (s : Mailbox) : Prop :=
  MailboxInvariant s ∧ ∃ seg, s.log = start ++ seg ∧ seg.count .take = 1

/-- It has consumed nothing and its last look at the token saw it empty. -/
def OpMissed (start : List MailboxEvent) (s : Mailbox) : Prop :=
  MailboxInvariant s ∧ ∃ seg, s.log = start ++ seg ∧ .take ∉ seg ∧ LastSawEmpty seg

/-- The guard that makes the invariant hold at every point of a run. -/
def MailboxGuard (_ : Option (WaitOp UInt32)) (s : Mailbox) : Prop := MailboxInvariant s

section Stability

variable (kind : PairKind) (start : List MailboxEvent)

theorem opRunning_stable : Stable (mailbox kind) (OpRunning start) := by
  rintro s s' ⟨hinv, seg, hlog, hseg⟩ ⟨producer, _, rfl⟩
  refine ⟨mailboxInvariant_unpark hinv producer, seg ++ [.unpark producer], ?_, by simpa using hseg⟩
  simp [Mailbox.unpark, hlog]

theorem opSeen_stable : Stable (mailbox kind) (OpSeen start) := by
  rintro s s' ⟨hrun, _⟩ ⟨producer, hp, rfl⟩
  exact ⟨opRunning_stable kind start _ _ hrun ⟨producer, hp, rfl⟩,
    unparkToken_notified kind hrun.1.binary⟩

theorem opTaken_stable : Stable (mailbox kind) (OpTaken start) := by
  rintro s s' ⟨hinv, seg, hlog, hseg⟩ ⟨producer, _, rfl⟩
  refine ⟨mailboxInvariant_unpark hinv producer, seg ++ [.unpark producer], ?_, ?_⟩
  · simp [Mailbox.unpark, hlog]
  · simpa [List.count_append] using hseg

theorem opMissed_stable : Stable (mailbox kind) (OpMissed start) := by
  rintro s s' ⟨hinv, seg, hlog, hseg, pre, post, rfl, hpost⟩ ⟨producer, _, rfl⟩
  refine ⟨mailboxInvariant_unpark hinv producer, _, ?_, ?_, pre, post ++ [.unpark producer], rfl, ?_⟩
  · simp [Mailbox.unpark, hlog]
  · simpa using hseg
  · simp only [List.mem_append, List.mem_singleton]
    rintro e (he | rfl)
    · exact hpost e he
    · rfl

end Stability

theorem OpMissed.running {start : List MailboxEvent} {s : Mailbox} (h : OpMissed start s) :
    OpRunning start s := by
  obtain ⟨hinv, seg, hlog, hseg, _⟩ := h
  exact ⟨hinv, seg, hlog, hseg⟩

section Steps

variable {start : List MailboxEvent} {s s' : Mailbox}

theorem opRunning_load (h : OpRunning start s) : OpRunning start s.load := by
  obtain ⟨hinv, seg, hlog, hseg⟩ := h
  exact ⟨mailboxInvariant_load hinv, seg ++ [.load s.token], by simp [Mailbox.load, hlog],
    by simpa using hseg⟩

theorem opMissed_load (h : OpRunning start s) (he : s.token = emptyToken) :
    OpMissed start s.load := by
  obtain ⟨hinv, seg, hlog, hseg⟩ := h
  refine ⟨mailboxInvariant_load hinv, seg ++ [.load emptyToken], by simp [Mailbox.load, hlog, he],
    by simpa using hseg, seg, [], rfl, by simp⟩

theorem opTaken_take (h : OpSeen start s) : OpTaken start ⟨emptyToken, s.log ++ [.take]⟩ := by
  obtain ⟨⟨hinv, seg, hlog, hseg⟩, hn⟩ := h
  refine ⟨mailboxInvariant_take hinv hn, seg ++ [.take], by simp [hlog], ?_⟩
  simp [List.count_append, List.count_eq_zero.mpr hseg]

end Steps

theorem mailboxAct_other {e : WaitEvent UInt32} {s s' : Mailbox}
    (he : e.1.blocks = true ∨ e.1.silent = true ∨ e.1 = .instantNow)
    (h : mailboxAct e.1 s e.2 s') : s' = s := by
  obtain ⟨op, x⟩ := e
  cases op <;> first | exact h | simp [WaitOp.blocks, WaitOp.silent] at he

/-- The mailbox is a machine for the parker's logic. -/
theorem mailbox_logic (kind : PairKind) (start : List MailboxEvent) (token : WaitableAtomic) :
    TokenLogic (mailbox kind) MailboxGuard token (OpRunning start) (OpSeen start) (OpTaken start)
      (OpMissed start) where
  running_stable := opRunning_stable kind start
  seen_stable := opSeen_stable kind start
  taken_stable := opTaken_stable kind start
  missed_stable := opMissed_stable kind start
  running_guard _ _ h := h.1
  taken_guard _ _ h := h.1
  seen_running _ h := h.1
  missed_running _ h := h.running
  load_missed := by
    rintro o s v s' h ⟨rfl, rfl⟩ hv
    exact opMissed_load h (h.1.binary.resolve_right hv)
  load_saw := by
    rintro o s v s' h ⟨rfl, rfl⟩ hv
    exact ⟨opRunning_load h, h.1.binary.resolve_left hv⟩
  load_seen := by
    rintro o s v s' h ⟨rfl, rfl⟩
    exact h.2
  exchange := by
    intro s x s' h hact
    have hcas : (x, s') = s.compareExchange notifiedToken emptyToken := hact
    rw [Mailbox.compareExchange, if_pos h.2] at hcas
    obtain ⟨rfl, rfl⟩ := Prod.mk.inj hcas
    exact ⟨rfl, opTaken_take h⟩
  other _ _ _ he hact := mailboxAct_other he hact

variable {kind : PairKind} {start : List MailboxEvent} {s : Mailbox}

theorem opRunning_refl (h : MailboxInvariant s) : OpRunning s.log s := ⟨h, [], by simp, by simp⟩

theorem session_invariant {core : ParkerCore} (h : Session (mailbox kind) core Mailbox.empty s) :
    MailboxInvariant s := by
  induction h with
  | new => exact mailboxInvariant_empty
  | interference _ henv ih =>
    obtain ⟨producer, _, rfl⟩ := henv
    exact mailboxInvariant_unpark ih producer
  | operation call _ hr ih => exact ((mailbox_logic kind _ core.token).wp_parkCall call (opRunning_refl ih) _ _ hr).1

/-- What holds in state `s'` of an operation that began in `s` and is now at `p`. -/
structure MailboxContract (s s' : Mailbox) (p : WaitProg UInt32 ParkOutcome) : Prop where
  binary : s'.token = emptyToken ∨ s'.token = notifiedToken
  notified_iff : s'.token = notifiedToken ↔ UnparkedSinceTake s'.log
  take_unparked : ∀ pre post, s'.log = pre ++ .take :: post → UnparkedSinceTake pre
  unpark_between : ∀ pre mid post, s'.log = pre ++ .take :: mid ++ .take :: post →
    ∃ producer, .unpark producer ∈ mid
  notified : p = .ret .notified → ∃ seg, s'.log = s.log ++ seg ∧ seg.count .take = 1
  missed : ∀ r, p = .ret r → r ≠ .notified → ∃ pre post,
    s'.log = s.log ++ pre ++ .load emptyToken :: post ∧ (∀ e ∈ post, e.isOwn = false) ∧
    .take ∉ pre ∧ ¬ UnparkedSinceTake (s.log ++ pre)
  pending : UnparkedSinceTake s.log → ∀ r, p = .ret r → r = .notified

theorem OpMissed.split (h : OpMissed start s) : ∃ pre post,
    s.log = start ++ pre ++ .load emptyToken :: post ∧ (∀ e ∈ post, e.isOwn = false) ∧
    .take ∉ pre ∧ ¬ UnparkedSinceTake (start ++ pre) := by
  obtain ⟨hinv, seg, hlog, hseg, pre, post, rfl, hpost⟩ := h
  rw [← List.append_assoc] at hlog
  refine ⟨pre, post, hlog, hpost, fun hm => hseg (by simp [hm]), ?_⟩
  intro hu
  exact emptyToken_ne_notifiedToken ((hinv.history _ _ _ hlog).mpr hu)

/-- The mailbox is linearizable: every state of every operation of every session. -/
theorem parker_mailbox_linearizable (kind : PairKind) (core : ParkerCore) (call : ParkCall)
    (s s' : Mailbox) (p : WaitProg UInt32 ParkOutcome)
    (hs : Session (mailbox kind) core Mailbox.empty s)
    (hr : Reach (mailbox kind) (call.program core, s) (p, s')) : MailboxContract s s' p := by
  obtain ⟨hinv, hdone⟩ := (mailbox_logic kind s.log core.token).wp_parkCall call
    (opRunning_refl (session_invariant hs)) _ _ hr
  have htake : ∀ pre post, s'.log = pre ++ .take :: post → UnparkedSinceTake pre :=
    fun pre post h => hinv.history pre _ post h
  refine ⟨hinv.binary, hinv.notified_iff, htake, unpark_between_takes htake, ?_, ?_, ?_⟩
  · intro hp
    rcases hdone _ hp with ⟨_, _, h⟩ | ⟨hne, _⟩
    · exact h
    · exact absurd rfl hne
  · intro r hp hne
    rcases hdone r hp with ⟨rfl, _⟩ | ⟨_, h⟩
    · exact absurd rfl hne
    · exact h.split
  · intro hu r hp
    rcases hdone r hp with ⟨rfl, _⟩ | ⟨_, h⟩
    · rfl
    · obtain ⟨pre, _, _, _, hpre, hno⟩ := h.split
      exact absurd (unparkedSinceTake_append hu hpre) hno

/-- An `unpark` and then a `park` on a two-producer pair. -/
theorem parker_mailbox_linearizable_notified : MailboxContract
    ⟨1, [.unpark 2]⟩ ⟨0, [.unpark 2, .load 1, .take]⟩ (.ret .notified) :=
  parker_mailbox_linearizable .multi ⟨⟨0⟩, .spinThenYield 1⟩ .park _ _ _
    (.interference .new ⟨2, by simp, by decide⟩)
    (.head (.call ⟨rfl, rfl⟩) (.head (.call (by rfl)) .refl))

end Snoozer
