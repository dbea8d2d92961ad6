import Snoozer.ParkerLogic

/-! The token as one atomic word: every `unpark` is one step of the environment,
every load and `compare_exchange` one step of the consumer. The log of all these
steps, in their one order, says what each operation consumed. -/
namespace Snoozer
open Interactive

inductive MailboxEvent where
  | unpark (producer : ℕ)
  | load (value : UInt32)
  | take
  | refused (value : UInt32)
  deriving DecidableEq, Repr

structure Mailbox where
  token : UInt32
  log : List MailboxEvent
  deriving DecidableEq, Repr

namespace Mailbox

/-- A new pair. -/
def empty : Mailbox := ⟨emptyToken, []⟩

def unpark (kind : PairKind) (producer : ℕ) (s : Mailbox) : Mailbox :=
  ⟨unparkToken kind s.token, s.log ++ [.unpark producer]⟩

def load (s : Mailbox) : Mailbox := { s with log := s.log ++ [.load s.token] }

/-- `compare_exchange` of the token. -/
def compareExchange (s : Mailbox) (current new : UInt32) : Except UInt32 UInt32 × Mailbox :=
  if s.token = current then (.ok current, ⟨new, s.log ++ [.take]⟩)
  else (.error s.token, { s with log := s.log ++ [.refused s.token] })

end Mailbox

def mailboxAct : (op : WaitOp UInt32) → Mailbox → WaitAns UInt32 op → Mailbox → Prop
  | .load _ _, s, (v : UInt32), s' => v = s.token ∧ s' = s.load
  | .compareExchange _ current new _ _, s, (x : Except UInt32 UInt32), s' =>
    (x, s') = s.compareExchange current new
  | .instantNow, s, _, s' => s' = s
  | .spinLoop, s, _, s' => s' = s
  | .yieldNow, s, _, s' => s' = s
  | .monitorx _, s, _, s' => s' = s
  | .umonitor _, s, _, s' => s' = s
  | .readTscOrdered, s, _, s' => s' = s
  | .mwaitx _ _, s, _, s' => s' = s
  | .umwaitC01 _, s, _, s' => s' = s
  | .storeHandoff, s, _, s' => s' = s

/-- A `SingleUnparker` is the one producer of its pair; `MultiUnparker`s are any number. -/
def mailbox (kind : PairKind) : Machine (WaitOp UInt32) (WaitAns UInt32) Mailbox where
  act := mailboxAct
  env s s' := ∃ producer, (kind = .single → producer = 0) ∧ s' = s.unpark kind producer

/-- Some `unpark` came after the last successful take. -/
def UnparkedSinceTake (log : List MailboxEvent) : Prop :=
  ∃ pre producer post, log = pre ++ .unpark producer :: post ∧ .take ∉ post

/-- The consumer's own steps. -/
def MailboxEvent.isOwn : MailboxEvent → Bool
  | .unpark _ => false
  | _ => true

/-- The last of the consumer's steps in this stretch is a load that saw the token empty. -/
def LastSawEmpty (log : List MailboxEvent) : Prop :=
  ∃ pre post, log = pre ++ .load emptyToken :: post ∧ ∀ e ∈ post, e.isOwn = false

/-- What an event says about the events before it. -/
def MailboxEvent.Justified (pre : List MailboxEvent) : MailboxEvent → Prop
  | .take => UnparkedSinceTake pre
  | .load value => value = notifiedToken ↔ UnparkedSinceTake pre
  | _ => True

/-- What holds of the mailbox at every moment. -/
structure MailboxInvariant (s : Mailbox) : Prop where
  binary : s.token = emptyToken ∨ s.token = notifiedToken
  notified_iff : s.token = notifiedToken ↔ UnparkedSinceTake s.log
  history : ∀ pre e post, s.log = pre ++ e :: post → e.Justified pre

section Log

variable {log : List MailboxEvent}

theorem unparkedSinceTake_unpark (producer : ℕ) :
    UnparkedSinceTake (log ++ [.unpark producer]) :=
  ⟨log, producer, [], rfl, by simp⟩

/-- An event that is no unpark matters when it is a take. -/
theorem unparkedSinceTake_snoc {e : MailboxEvent} (he : ∀ producer, e ≠ .unpark producer) :
    UnparkedSinceTake (log ++ [e]) ↔ UnparkedSinceTake log ∧ e ≠ .take := by
  constructor
  · rintro ⟨pre, producer, post, hlog, hpost⟩
    rcases List.eq_nil_or_concat post with rfl | ⟨post', last, rfl⟩
    · obtain ⟨_, hlast⟩ := List.append_inj' hlog rfl
      exact absurd (List.cons.inj hlast).1 (he producer)
    · rw [List.concat_eq_append, ← List.cons_append, ← List.append_assoc] at hlog
      obtain ⟨rfl, hlast⟩ := List.append_inj' hlog rfl
      simp only [List.concat_eq_append, List.mem_append, List.mem_singleton, not_or] at hpost
      refine ⟨⟨pre, producer, post', rfl, hpost.1⟩, ?_⟩
      rw [(List.cons.inj hlast).1]
      exact fun h => hpost.2 h.symm
  · rintro ⟨⟨pre, producer, post, rfl, hpost⟩, hne⟩
    refine ⟨pre, producer, post ++ [e], by simp, ?_⟩
    simp only [List.mem_append, List.mem_singleton, not_or]
    exact ⟨hpost, fun h => hne h.symm⟩

theorem unparkedSinceTake_append {t : List MailboxEvent} (h : UnparkedSinceTake log)
    (ht : .take ∉ t) : UnparkedSinceTake (log ++ t) := by
  obtain ⟨pre, producer, post, rfl, hpost⟩ := h
  refine ⟨pre, producer, post ++ t, by simp, ?_⟩
  simp only [List.mem_append, not_or]
  exact ⟨hpost, ht⟩

/-- Between two consecutive takes there is an `unpark`. -/
theorem unpark_between_takes
    (h : ∀ pre post, log = pre ++ .take :: post → UnparkedSinceTake pre)
    (pre mid post : List MailboxEvent) (hlog : log = pre ++ .take :: mid ++ .take :: post) :
    ∃ producer, .unpark producer ∈ mid := by
  obtain ⟨t₁, producer, t₂, heq, hno⟩ := h (pre ++ .take :: mid) post hlog
  refine ⟨producer, ?_⟩
  rcases List.append_eq_append_iff.mp heq with ⟨l, hl, hcons⟩ | ⟨l, hl, hcons⟩
  · rcases l with _ | ⟨a, l⟩
    · cases hcons
    · rw [List.cons_append] at hcons
      rw [(List.cons.inj hcons).2]
      simp
  · rcases l with _ | ⟨a, l⟩
    · cases hcons
    · rw [List.cons_append] at hcons
      have : MailboxEvent.take ∈ t₂ := by
        rw [(List.cons.inj hcons).2]
        simp
      exact absurd this hno

theorem history_snoc {e : MailboxEvent}
    (h : ∀ pre e post, log = pre ++ e :: post → e.Justified pre) (he : e.Justified log) :
    ∀ pre e' post, log ++ [e] = pre ++ e' :: post → e'.Justified pre := by
  intro pre e' post hlog
  rcases List.eq_nil_or_concat post with rfl | ⟨post', last, rfl⟩
  · obtain ⟨rfl, hlast⟩ := List.append_inj' hlog rfl
    exact (List.cons.inj hlast).1 ▸ he
  · rw [List.concat_eq_append, ← List.cons_append, ← List.append_assoc] at hlog
    exact h pre e' post' (List.append_inj' hlog rfl).1

end Log

theorem unparkToken_notified (kind : PairKind) {token : UInt32}
    (h : token = emptyToken ∨ token = notifiedToken) : unparkToken kind token = notifiedToken := by
  cases kind with
  | single => rfl
  | multi =>
    rcases h with rfl | rfl
    · decide
    · decide

variable {kind : PairKind} {s s' : Mailbox}

theorem mailboxInvariant_empty : MailboxInvariant Mailbox.empty := by
  refine ⟨Or.inl rfl, ⟨fun h => absurd h emptyToken_ne_notifiedToken, ?_⟩, ?_⟩
  · rintro ⟨pre, producer, post, h, _⟩
    simp [Mailbox.empty] at h
  · intro pre e post h
    simp [Mailbox.empty] at h

theorem mailboxInvariant_unpark (h : MailboxInvariant s) (producer : ℕ) :
    MailboxInvariant (s.unpark kind producer) := by
  have htoken : (s.unpark kind producer).token = notifiedToken :=
    unparkToken_notified kind h.binary
  exact ⟨Or.inr htoken, ⟨fun _ => unparkedSinceTake_unpark producer, fun _ => htoken⟩,
    history_snoc h.history trivial⟩

theorem mailboxInvariant_load (h : MailboxInvariant s) : MailboxInvariant s.load := by
  refine ⟨h.binary, ?_, history_snoc h.history h.notified_iff⟩
  rw [Mailbox.load, unparkedSinceTake_snoc (fun _ => by simp)]
  exact h.notified_iff.trans ⟨fun hu => ⟨hu, by simp⟩, fun hu => hu.1⟩

theorem mailboxInvariant_take (h : MailboxInvariant s) (hn : s.token = notifiedToken) :
    MailboxInvariant ⟨emptyToken, s.log ++ [.take]⟩ := by
  refine ⟨Or.inl rfl, ⟨fun he => absurd he emptyToken_ne_notifiedToken, fun hu => ?_⟩,
    history_snoc h.history (h.notified_iff.mp hn)⟩
  rw [unparkedSinceTake_snoc (fun _ => by simp)] at hu
  exact absurd rfl hu.2

end Snoozer
