import Snoozer.ParkerLogic
import Snoozer.ReleaseAcquire

/-! The parker's token under release/acquire views, with any number of producers
that write payload before they unpark. -/
namespace Snoozer
open Interactive ReleaseAcquire

/-- Which write of the token a message is. An `unpark` carries the payload writes
that its producer made before it, in program order. -/
inductive TokenWrite (L : Type) where
  | initial
  | unpark (producer : ℕ) (written : List L)
  | take

/-- A successful `compare_exchange` of the consumer: where it sits in the
modification order and the consumer's view right after it. -/
structure Take (L : Type) where
  time : ℕ
  data : L

structure TokenViews (L : Type) where
  memory : Memory UInt32 L (TokenWrite L)
  producers : ℕ → View L
  written : ℕ → List L
  consumer : View L
  takes : List (Take L)

def MemOrdering.acquires : MemOrdering → Bool
  | .acquire => true
  | _ => false

def MemOrdering.releases : MemOrdering → Bool
  | .release => true
  | _ => false

variable {L : Type} [SemilatticeSup L] [OrderBot L]

/-- The data a write passes on: the writer's view if it releases, and for an
update the view of the message it read in any case. -/
def writtenData (release : Bool) (writer : L) (read : L) : L :=
  if release then read ⊔ writer else read

namespace TokenViews

/-- A new pair: the token's initial message, and nobody has seen anything. -/
def initial (L : Type) [SemilatticeSup L] [OrderBot L] : TokenViews L where
  memory t := if t = 0 then some ⟨emptyToken, ⊥, .initial⟩ else none
  producers _ := ⟨0, ⊥⟩
  written _ := []
  consumer := ⟨0, ⊥⟩
  takes := []

def load (s : TokenViews L) (o : MemOrdering) (t : ℕ) (m : Message UInt32 L (TokenWrite L)) :
    TokenViews L :=
  { s with consumer := s.consumer.read o.acquires t m }

/-- The consumer's update right after the message `m` at `t`. -/
def exchange (s : TokenViews L) (o : MemOrdering) (new : UInt32) (t : ℕ)
    (m : Message UInt32 L (TokenWrite L)) : TokenViews L :=
  { s with
    memory := s.memory.insert (t + 1) ⟨new, writtenData o.releases s.consumer.data m.data, .take⟩
    consumer := s.consumer.read o.acquires (t + 1) m
    takes := s.takes ++ [⟨t + 1, (s.consumer.read o.acquires (t + 1) m).data⟩] }

/-- A relaxed payload write by a producer. -/
def writePayload (s : TokenViews L) (i : ℕ) (x : L) : TokenViews L :=
  { s with
    producers := fun j => if j = i then ⟨(s.producers i).time, (s.producers i).data ⊔ x⟩
      else s.producers j
    written := fun j => if j = i then s.written i ++ [x] else s.written j }

/-- Producer `i` writes `value` at time `t`, releasing its view and passing on `read`. -/
def publish (s : TokenViews L) (i t : ℕ) (value : UInt32) (read : L) : TokenViews L :=
  { s with
    memory := s.memory.insert t ⟨value,
      writtenData MemOrdering.release.releases (s.producers i).data read, .unpark i (s.written i)⟩
    producers := fun j => if j = i then ⟨t, (s.producers i).data⟩ else s.producers j }

end TokenViews

def viewsAct : (op : WaitOp UInt32) → TokenViews L → WaitAns UInt32 op → TokenViews L → Prop
  | .load _ o, s, (v : UInt32), s' => ∃ t m, s.memory t = some m ∧ s.consumer.time ≤ t ∧
      v = m.value ∧ s' = s.load o t m
  | .compareExchange _ current new success failure, s, (x : Except UInt32 UInt32), s' =>
    ∃ t m, s.memory t = some m ∧ s.consumer.time ≤ t ∧
      ((m.value = current ∧ s.memory (t + 1) = none ∧ x = .ok current ∧
          s' = s.exchange success new t m) ∨
        (m.value ≠ current ∧ x = .error m.value ∧ s' = s.load failure t m))
  | .instantNow, s, _, s' => s' = s
  | .spinLoop, s, _, s' => s' = s
  | .yieldNow, s, _, s' => s' = s
  | .monitorx _, s, _, s' => s' = s
  | .umonitor _, s, _, s' => s' = s
  | .readTscOrdered, s, _, s' => s' = s
  | .mwaitx _ _, s, _, s' => s' = s
  | .umwaitC01 _, s, _, s' => s' = s
  | .storeHandoff, s, _, s' => s' = s

/-- What the producers do: payload writes at any time, a `SingleUnparker`'s store
anywhere after its own view, a `MultiUnparker`'s `fetch_or` right after any message
it may read. -/
inductive Producers (kind : PairKind) : TokenViews L → TokenViews L → Prop where
  | write (s : TokenViews L) (i : ℕ) (x : L) (hi : kind = .single → i = 0) :
      Producers kind s (s.writePayload i x)
  | store (s : TokenViews L) (t : ℕ) (hkind : kind = .single) (hview : (s.producers 0).time < t)
      (hfree : s.memory t = none) : Producers kind s (s.publish 0 t notifiedToken ⊥)
  | fetchOr (s : TokenViews L) (i t : ℕ) (m : Message UInt32 L (TokenWrite L))
      (hkind : kind = .multi) (hmem : s.memory t = some m) (hview : (s.producers i).time ≤ t)
      (hfree : s.memory (t + 1) = none) :
      Producers kind s (s.publish i (t + 1) (m.value ||| notifiedToken) m.data)

def tokenViews (L : Type) [SemilatticeSup L] [OrderBot L] (kind : PairKind) :
    Machine (WaitOp UInt32) (WaitAns UInt32) (TokenViews L) where
  act := viewsAct
  env := Producers kind

/-- How the messages of each kind of pair lie in the modification order. -/
def Arranged (kind : PairKind) (s : TokenViews L) : Prop :=
  match kind with
  | .single => ∀ t m, s.memory t = some m → m.data ≤ (s.producers 0).data ∧
      t ≤ (s.producers 0).time + 1 ∧ (m.value = notifiedToken → t ≤ (s.producers 0).time)
  | .multi => s.memory.Contiguous

structure ViewsInvariant (kind : PairKind) (s : TokenViews L) : Prop where
  ordered : s.memory.Ordered
  bounded : s.memory.Bounded
  arranged : Arranged kind s
  consumer_at : ∃ m, s.memory s.consumer.time = some m
  stale : ∀ t m, s.memory t = some m → m.value ≠ notifiedToken →
    m.value = emptyToken ∧ t ≤ s.consumer.time
  written : ∀ i, ∀ x ∈ s.written i, x ≤ (s.producers i).data
  published : ∀ t m i ws, s.memory t = some m → m.tag = .unpark i ws → ∀ x ∈ ws, x ≤ m.data
  taken : ∀ k ∈ s.takes, ∃ m, s.memory k.time = some m ∧ m.data ≤ k.data

/-- The consumer stands at a message with the token set. -/
def SeesToken (s : TokenViews L) : Prop :=
  ∃ m, s.memory s.consumer.time = some m ∧ m.value = notifiedToken

/-- The first message carries nothing, and the invariant holds of it. -/
theorem viewsInvariant_initial (kind : PairKind) :
    ViewsInvariant kind (TokenViews.initial L) := by
  have hzero : ∀ t (m : Message UInt32 L (TokenWrite L)),
      (TokenViews.initial L).memory t = some m → t = 0 ∧ m = ⟨emptyToken, ⊥, .initial⟩ := by
    intro t m h
    by_cases ht : t = 0
    · simp only [TokenViews.initial, ht, ↓reduceIte, Option.some.injEq] at h
      exact ⟨ht, h.symm⟩
    · simp [TokenViews.initial, ht] at h
  refine ⟨?_, ⟨1, ?_⟩, ?_, ⟨_, rfl⟩, ?_, ?_, ?_, ?_⟩
  · intro t u m m' _ ht hu
    rw [(hzero t m ht).2, (hzero u m' hu).2]
  · intro t ht
    exact if_neg (by omega)
  · cases kind with
    | single =>
      intro t m ht
      obtain ⟨rfl, rfl⟩ := hzero t m ht
      exact ⟨bot_le, by simp, fun _ => Nat.zero_le _⟩
    | multi =>
      intro t _
      simp [TokenViews.initial]
  · intro t m ht _
    obtain ⟨rfl, rfl⟩ := hzero t m ht
    exact ⟨rfl, Nat.le_refl 0⟩
  · intro i x hx
    cases hx
  · intro t m i ws ht htag
    rw [(hzero t m ht).2] at htag
    cases htag
  · intro k hk
    cases hk

section Interference

variable {kind : PairKind} {s : TokenViews L}

omit [OrderBot L] in
theorem producers_writePayload (i j : ℕ) (x : L) :
    (s.producers j).data ≤ ((s.writePayload i x).producers j).data ∧
      ((s.writePayload i x).producers j).time = (s.producers j).time := by
  by_cases hj : j = i
  · subst hj
    simp [TokenViews.writePayload]
  · simp [TokenViews.writePayload, hj]

omit [OrderBot L] in
/-- A producer that writes its payload keeps the invariant. -/
theorem viewsInvariant_write (h : ViewsInvariant kind s) (i : ℕ) (x : L) :
    ViewsInvariant kind (s.writePayload i x) := by
  refine ⟨h.ordered, h.bounded, ?_, h.consumer_at, h.stale, ?_, h.published, h.taken⟩
  · have harr := h.arranged
    cases kind with
    | single =>
      intro t m ht
      obtain ⟨hdata, htime, hval⟩ := harr t m ht
      obtain ⟨hle, heq⟩ := producers_writePayload (s := s) i 0 x
      exact ⟨hdata.trans hle, heq ▸ htime, heq ▸ hval⟩
    | multi => exact harr
  · intro j y hy
    by_cases hj : j = i
    · subst hj
      simp only [TokenViews.writePayload, ↓reduceIte, List.mem_append, List.mem_singleton] at hy ⊢
      rcases hy with hy | rfl
      · exact (h.written j y hy).trans le_sup_left
      · exact le_sup_right
    · simp only [TokenViews.writePayload, hj, ↓reduceIte] at hy ⊢
      exact h.written j y hy

omit [OrderBot L] in
/-- A message in a fresh slot, with the token set, that fits into the order. -/
theorem viewsInvariant_publish (h : ViewsInvariant kind s) {i t : ℕ} {value : UInt32} {read : L}
    (hfree : s.memory t = none) (hvalue : value = notifiedToken)
    (hbefore : ∀ u m, u < t → s.memory u = some m → m.data ≤ read ⊔ (s.producers i).data)
    (hlast : ∀ u m, s.memory u = some m → u < t)
    (harr : Arranged kind (s.publish i t value read)) :
    ViewsInvariant kind (s.publish i t value read) := by
  refine ⟨h.ordered.insert hbefore fun u m hu hm => ?_, h.bounded.insert, harr, ?_, ?_, ?_, ?_, ?_⟩
  · have := hlast u m hm
    omega
  · obtain ⟨m, hm⟩ := h.consumer_at
    exact ⟨m, Memory.insert_of_mem hfree hm⟩
  · intro u m hm hne
    rcases Memory.insert_eq_some hm with ⟨_, rfl⟩ | ⟨_, hm⟩
    · exact absurd hvalue hne
    · exact h.stale u m hm hne
  · intro j x hx
    have hle := h.written j x hx
    by_cases hj : j = i
    · subst hj
      simpa [TokenViews.publish] using hle
    · simpa [TokenViews.publish, hj] using hle
  · intro u m j ws hm htag x hx
    rcases Memory.insert_eq_some hm with ⟨_, rfl⟩ | ⟨_, hm⟩
    · cases htag
      exact (h.written i x hx).trans le_sup_right
    · exact h.published u m j ws hm htag x hx
  · intro k hk
    obtain ⟨m, hm, hle⟩ := h.taken k hk
    exact ⟨m, Memory.insert_of_mem hfree hm, hle⟩

/-- The one producer's store is the last of the modification order. -/
theorem viewsInvariant_store {s : TokenViews L} (h : ViewsInvariant .single s) {t : ℕ}
    (hview : (s.producers 0).time < t) (hfree : s.memory t = none) :
    ViewsInvariant .single (s.publish 0 t notifiedToken ⊥) := by
  have harr : ∀ u m, s.memory u = some m → m.data ≤ (s.producers 0).data ∧
      u ≤ (s.producers 0).time + 1 ∧ (m.value = notifiedToken → u ≤ (s.producers 0).time) :=
    h.arranged
  have hlast : ∀ u m, s.memory u = some m → u < t := by
    intro u m hm
    have hne : u ≠ t := by
      rintro rfl
      cases hfree.symm.trans hm
    have := (harr u m hm).2.1
    omega
  refine viewsInvariant_publish h hfree rfl (fun u m _ hm => ?_) hlast fun u m hm => ?_
  · exact (harr u m hm).1.trans le_sup_right
  · simp only [TokenViews.publish, ↓reduceIte]
    rcases Memory.insert_eq_some hm with ⟨rfl, rfl⟩ | ⟨_, hm⟩
    · exact ⟨by simp [writtenData, MemOrdering.releases], by omega, fun _ => Nat.le_refl _⟩
    · have := hlast u m hm
      exact ⟨(harr u m hm).1, by omega, fun _ => by omega⟩

omit [OrderBot L] in
/-- A `fetch_or` reads the last message, since all others have their successor. -/
theorem viewsInvariant_fetchOr {s : TokenViews L} (h : ViewsInvariant .multi s) {i t : ℕ}
    {m : Message UInt32 L (TokenWrite L)} (hmem : s.memory t = some m)
    (hfree : s.memory (t + 1) = none) :
    ViewsInvariant .multi (s.publish i (t + 1) (m.value ||| notifiedToken) m.data) := by
  have hcont : s.memory.Contiguous := h.arranged
  have hvalue : m.value ||| notifiedToken = notifiedToken := by
    by_cases hv : m.value = notifiedToken
    · rw [hv]
      decide
    · rw [(h.stale t m hmem hv).1]
      decide
  refine viewsInvariant_publish h hfree hvalue (fun u m' hu hm' => ?_)
    (fun u m' hm' => hcont.lt_of_none hfree hm') (hcont.insert hmem)
  exact (h.ordered u t m' m (by omega) hm' hmem).trans le_sup_left

theorem viewsInvariant_stable (kind : PairKind) :
    Stable (tokenViews L kind) (ViewsInvariant kind) := by
  intro s s' h henv
  cases henv with
  | write i x _ => exact viewsInvariant_write h i x
  | store t hkind hview hfree =>
    subst hkind
    exact viewsInvariant_store h hview hfree
  | fetchOr i t m hkind hmem hview hfree =>
    subst hkind
    exact viewsInvariant_fetchOr h hmem hfree

/-- Where the consumer stands is not changed by the producers. -/
theorem seesToken_stable (kind : PairKind) : Stable (tokenViews L kind) (SeesToken (L := L)) := by
  rintro s s' ⟨m, hm, hv⟩ henv
  cases henv with
  | write i x _ => exact ⟨m, hm, hv⟩
  | store t _ _ hfree => exact ⟨m, Memory.insert_of_mem hfree hm, hv⟩
  | fetchOr i t m' _ _ _ hfree => exact ⟨m, Memory.insert_of_mem hfree hm, hv⟩

end Interference

section Consumer

variable {kind : PairKind} {s : TokenViews L} {t : ℕ} {m : Message UInt32 L (TokenWrite L)}

omit [OrderBot L] in
theorem viewsInvariant_load (h : ViewsInvariant kind s) (hmem : s.memory t = some m)
    (hview : s.consumer.time ≤ t) (o : MemOrdering) : ViewsInvariant kind (s.load o t m) := by
  refine ⟨h.ordered, h.bounded, ?_, ⟨m, hmem⟩, fun u m' hm hne => ?_, h.written, h.published, h.taken⟩
  · cases kind with
    | single => exact h.arranged
    | multi => exact h.arranged
  · obtain ⟨hv, hle⟩ := h.stale u m' hm hne
    exact ⟨hv, hle.trans hview⟩

omit [OrderBot L] in
/-- A successful exchange of the token, as `take_notification` makes it. -/
theorem viewsInvariant_exchange (h : ViewsInvariant kind s) (hmem : s.memory t = some m)
    (hview : s.consumer.time ≤ t) (hvalue : m.value = notifiedToken)
    (hfree : s.memory (t + 1) = none) :
    ViewsInvariant kind (s.exchange .acquire emptyToken t m) := by
  refine ⟨h.ordered.insert_update hmem rfl, h.bounded.insert, ?_, ⟨_, Memory.insert_self⟩, ?_,
    h.written, ?_, ?_⟩
  · have harr := h.arranged
    cases kind with
    | single =>
      intro u mu hm
      rcases Memory.insert_eq_some hm with ⟨rfl, rfl⟩ | ⟨_, hm⟩
      · obtain ⟨hdata, _, hnot⟩ := harr t m hmem
        refine ⟨hdata, Nat.succ_le_succ (hnot hvalue), fun he => ?_⟩
        exact absurd he emptyToken_ne_notifiedToken
      · exact harr u mu hm
    | multi =>
      have hcont : s.memory.Contiguous := harr
      exact hcont.insert hmem
  · intro u mu hm hne
    rcases Memory.insert_eq_some hm with ⟨rfl, rfl⟩ | ⟨_, hm⟩
    · exact ⟨rfl, Nat.le_refl _⟩
    · obtain ⟨hv, hle⟩ := h.stale u mu hm hne
      exact ⟨hv, (hle.trans hview).trans (Nat.le_succ t)⟩
  · intro u mu j ws hm htag
    rcases Memory.insert_eq_some hm with ⟨_, rfl⟩ | ⟨_, hm⟩
    · cases htag
    · exact h.published u mu j ws hm htag
  · intro k hk
    rcases List.mem_append.mp hk with hk | hk
    · obtain ⟨mk, hm, hle⟩ := h.taken k hk
      exact ⟨mk, Memory.insert_of_mem hfree hm, hle⟩
    · rw [List.mem_singleton.mp hk]
      exact ⟨_, Memory.insert_self, le_sup_right⟩

omit [OrderBot L] in
/-- From where it saw the token set, the consumer can only read it set. -/
theorem SeesToken.value (hs : SeesToken s) (h : ViewsInvariant kind s)
    (hmem : s.memory t = some m) (hview : s.consumer.time ≤ t) : m.value = notifiedToken := by
  by_contra hne
  obtain ⟨m₀, hm₀, hv⟩ := hs
  have heq : t = s.consumer.time := Nat.le_antisymm (h.stale t m hmem hne).2 hview
  subst heq
  cases hm₀.symm.trans hmem
  exact hne hv

end Consumer

end Snoozer
