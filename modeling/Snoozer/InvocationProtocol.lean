import Snoozer.CpuIdleCalls
import Snoozer.ProgramPool

/-! What one invocation of the coordinator may do and when, as a protocol of its calls:
it writes the tree only under both locks, stores a journal only as a new record or as an
extension of the one it has read, and enters the supervisor only with the policy applied
and recorded. -/
namespace Snoozer.Benchctl
open Interactive Fallible Protocol

/-- A contact with a file of the tree. Reads are trimmed. -/
inductive TreeEvent where
  | wrote (path : PathBuf) (contents : String)
  | read (path : PathBuf) (value : String)
  deriving DecidableEq

/-- What an invocation did to the tree, as far as it can tell. -/
def treeEvent : Event HostOp HostAns → Option TreeEvent
  | ⟨.write path contents, _⟩ => some (.wrote path contents)
  | ⟨.readToString path, .ok contents⟩ => some (.read path (trim contents))
  | _ => none

def treeEvents (t : List (Event HostOp HostAns)) : List TreeEvent := t.filterMap treeEvent

/-- An entry set to its desired value and read back. -/
def IdleEntry.readBack (entry : IdleEntry) : List TreeEvent :=
  [.wrote entry.disablePath (entry.desired ++ "\n"), .read entry.disablePath entry.desired]

/-- An entry seen at its original value. -/
def IdleEntry.atOriginal (entry : IdleEntry) : TreeEvent := .read entry.disablePath entry.original

/-- What the invocation has made of its journal. After a failed store nothing is certain. -/
inductive Record where
  | untouched
  | stored (operationId : String) (journal : Journal)
  | unsure
  deriving DecidableEq

/-- `supervised` tells whether `coordinate` was called and with which kind of result. The
last four fields are what the invocation has learned. -/
structure InvocationPhase where
  locked : Bool
  cleared : Bool
  supervised : Option Bool
  record : Record
  seen : List (String × Journal)
  absent : List String
  outcomes : List String
  tree : List TreeEvent

def Journal.stages (journal : Journal) : List Stage := journal.transitions.map Transition.stage

namespace InvocationPhase

def initial : InvocationPhase := ⟨false, false, none, .untouched, [], [], [], []⟩

/-- The journal that a store would replace. -/
def Holds (φ : InvocationPhase) (operationId : String) (journal : Journal) : Prop :=
  φ.record = .stored operationId journal ∨
    φ.record = .untouched ∧ (operationId, journal) ∈ φ.seen

/-- Both locks, and no supervised run of this invocation that went wrong. -/
def MayWrite (φ : InvocationPhase) : Prop :=
  φ.locked = true ∧ φ.cleared = true ∧ φ.supervised ≠ some false

/-- The ways in which a stored journal is replaced. -/
inductive Extends (φ : InvocationPhase) (j : Journal) : Journal → Prop where
  | applied (a : Actor) (millis : ℕ) : j.stages = [.prepared] → Extends φ j (j.push .applied a millis)
  | started (a : Actor) (millis : ℕ) : j.stages = [.prepared, .applied] →
      Extends φ j (j.push .workloadStarted a millis)
  | outcome (o : TerminalOutcome) : j.operationId ∈ φ.outcomes → j.outcome = none →
      Extends φ j { j with outcome := some o }
  | recoverable (a : Actor) (millis : ℕ) : j.stages = [.prepared, .applied, .workloadStarted] →
      Extends φ j (j.push .recoverable a millis)
  | finished (o : TerminalOutcome) (a a' : Actor) (millis millis' : ℕ) :
      j.stages = [.prepared, .applied, .workloadStarted] → j.outcome = none →
      Extends φ j ((({ j with outcome := some o } : Journal).push .workloadFinished a millis).push
        .draining a' millis')
  | conflict (a : Actor) (millis : ℕ) : Extends φ j (j.push .restoreConflict a millis)
  | restoring (a : Actor) (millis : ℕ) : Extends φ j (j.push .restoring a millis)
  | restored (a : Actor) (millis : ℕ) : j.stage = .restoring →
      j.entries.map IdleEntry.atOriginal <:+ φ.tree →
      Extends φ j (j.push .restored a millis)

inductive MayStore (φ : InvocationPhase) (id : String) : Journal → Prop where
  | create {j : Journal} : φ.locked = true → φ.record = .untouched → id ∈ φ.absent →
      j.operationId = id → j.outcome = none → j.stages = [.prepared] → MayStore φ id j
  | extend {j j' : Journal} : φ.locked = true → φ.Holds id j → j.stage ≠ .restored →
      Extends φ j j' → MayStore φ id j'

/-- The operation is a new one, the policy is applied and recorded, and every entry was read back
right after its write. -/
def MaySupervise (φ : InvocationPhase) (request : CoordinateRequest) : Prop :=
  φ.locked = true ∧ φ.cleared = true ∧ φ.supervised = none ∧ request.operationId ∈ φ.absent ∧
    ∃ j, φ.record = .stored request.operationId j ∧ j.operationId = request.operationId ∧
      j.stages = [.prepared, .applied, .workloadStarted] ∧
      ∀ e ∈ j.entries, e.readBack <:+: φ.tree

end InvocationPhase

open InvocationPhase in
open Classical in
noncomputable def invocationProtocol : Protocol HostOp HostAns InvocationPhase where
  next φ
    | .lockFor _ => fun (x : Except BenchError Unit) =>
      some { φ with locked := φ.locked || x.isOk }
    | .requireInactive => fun (x : Except BenchError Unit) =>
      if φ.locked then some { φ with cleared := φ.cleared || x.isOk } else none
    | .journalExists id => fun (x : Bool) =>
      some (if φ.locked && !x then { φ with absent := id :: φ.absent } else φ)
    | .readJournal id => fun (x : Except BenchError Journal) =>
      some (match φ.locked, x with
        | true, .ok j => { φ with seen := (id, j) :: φ.seen }
        | _, _ => φ)
    | .readOutcome id => fun (x : Except BenchError (Option Outcome)) =>
      some (match x with
        | .ok (some _) => { φ with outcomes := id :: φ.outcomes }
        | _ => φ)
    | .readStatus id => fun (x : Except BenchError (Option WorkloadStatus)) =>
      some (match x with
        | .ok (some _) => { φ with outcomes := id :: φ.outcomes }
        | _ => φ)
    | .readToString p => fun (x : Except IoError String) =>
      some (match x with
        | .ok c => { φ with tree := φ.tree ++ [.read p (trim c)] }
        | .error _ => φ)
    | .write p c => fun _ =>
      if φ.MayWrite then some { φ with tree := φ.tree ++ [.wrote p c] } else none
    | .writeJournal id j => fun (x : Except BenchError Unit) =>
      if φ.MayStore id j then some { φ with record := if x.isOk then .stored id j else .unsure }
      else none
    | .coordinate request => fun (x : Except BenchError Outcome) =>
      if φ.MaySupervise request then some { φ with supervised := some x.isOk } else none
    | _ => fun _ => some φ

/-- The phases that a phase becomes when only something more is learned. -/
structure InvocationPhase.Grows (φ φ' : InvocationPhase) : Prop where
  locked : φ'.locked = φ.locked
  cleared : φ'.cleared = φ.cleared
  supervised : φ'.supervised = φ.supervised
  record : φ'.record = φ.record
  seen : φ.seen ⊆ φ'.seen
  absent : φ.absent ⊆ φ'.absent
  outcomes : φ.outcomes ⊆ φ'.outcomes
  tree : φ.tree <+: φ'.tree

namespace InvocationPhase

variable {φ φ' φ'' : InvocationPhase} {id : String} {j : Journal}

theorem Grows.refl (φ : InvocationPhase) : φ.Grows φ :=
  ⟨rfl, rfl, rfl, rfl, fun _ h => h, fun _ h => h, fun _ h => h, List.prefix_rfl⟩

theorem Grows.trans (h : φ.Grows φ') (h' : φ'.Grows φ'') : φ.Grows φ'' :=
  ⟨h'.locked.trans h.locked, h'.cleared.trans h.cleared, h'.supervised.trans h.supervised,
    h'.record.trans h.record, fun _ hx => h'.seen (h.seen hx), fun _ hx => h'.absent (h.absent hx),
    fun _ hx => h'.outcomes (h.outcomes hx), h.tree.trans h'.tree⟩

theorem Grows.learned (φ : InvocationPhase) (t : List TreeEvent) :
    φ.Grows { φ with tree := φ.tree ++ t } :=
  ⟨rfl, rfl, rfl, rfl, fun _ h => h, fun _ h => h, fun _ h => h, List.prefix_append _ _⟩

theorem Holds.grows (h : φ.Holds id j) (hg : φ.Grows φ') : φ'.Holds id j := by
  rcases h with h | ⟨h, hmem⟩
  · exact Or.inl (hg.record.trans h)
  · exact Or.inr ⟨hg.record.trans h, hg.seen hmem⟩

theorem MayWrite.grows (h : φ.MayWrite) (hg : φ.Grows φ') : φ'.MayWrite := by
  unfold MayWrite
  rw [hg.locked, hg.cleared, hg.supervised]
  exact h

end InvocationPhase

open InvocationPhase

/-- A quiet call is always allowed, and the record only grows by it. -/
theorem invocation_quiet (op : HostOp) (φ : InvocationPhase) (x : HostAns op)
    (hop : op.quiet = true) :
    ∃ φ', invocationProtocol.next φ op x = some φ' ∧ φ.Grows φ' := by
  cases op with
  | readJournal id =>
    refine ⟨_, rfl, ?_⟩
    split
    · exact ⟨rfl, rfl, rfl, rfl, List.subset_cons_self .., fun _ h => h, fun _ h => h,
        List.prefix_rfl⟩
    · exact .refl φ
  | readOutcome id =>
    refine ⟨_, rfl, ?_⟩
    split
    · exact ⟨rfl, rfl, rfl, rfl, fun _ h => h, fun _ h => h, List.subset_cons_self ..,
        List.prefix_rfl⟩
    · exact .refl φ
  | readStatus id =>
    refine ⟨_, rfl, ?_⟩
    split
    · exact ⟨rfl, rfl, rfl, rfl, fun _ h => h, fun _ h => h, List.subset_cons_self ..,
        List.prefix_rfl⟩
    · exact .refl φ
  | readToString p =>
    refine ⟨_, rfl, ?_⟩
    split
    · exact .learned φ _
    · exact .refl φ
  | write p c => cases hop
  | writeJournal id j => cases hop
  | atomicWrite p b => cases hop
  | coordinate request => cases hop
  | lockFor wait => cases hop
  | requireInactive => cases hop
  | journalExists id => cases hop
  | _ => exact ⟨φ, rfl, .refl φ⟩

/-- A lookup only adds to what is known. -/
theorem invocation_lookup (id : String) (φ : InvocationPhase) (x : Bool) :
    ∃ φ', invocationProtocol.next φ (.journalExists id) x = some φ' ∧ φ.Grows φ' := by
  refine ⟨_, rfl, ?_⟩
  split
  · exact ⟨rfl, rfl, rfl, rfl, fun _ h => h, List.subset_cons_self .., fun _ h => h,
      List.prefix_rfl⟩
  · exact .refl φ

variable {codec : Codec} {α : Type} {φ₀ : InvocationPhase} {id : String} {j : Journal}

/-- Calls that touch neither the tree nor a journal nor a lock; snapshots are written aside. -/
def HostOp.Unnoticed (op : HostOp) : Prop :=
  op.quiet = true ∨ (∃ id, op = .journalExists id) ∨ ∃ path bytes, op = .atomicWrite path bytes

theorem HostOp.unnoticed_of_quiet (op : HostOp) (h : op.quiet = true) : op.Unnoticed := Or.inl h

/-- A part of an invocation that makes only such calls keeps what learning keeps. -/
theorem obeys_unnoticed {P : InvocationPhase → Prop} (hP : ∀ φ φ', P φ → φ.Grows φ' → P φ')
    {p : Bench α} (hp : Within HostOp.Unnoticed p) :
    invocationProtocol.Obeys P p (fun _ => P) fun _ => P := by
  apply obeys_within _ hp
  rintro op φ x (hop | ⟨id, rfl⟩ | ⟨path, bytes, rfl⟩) hφ
  · obtain ⟨φ', hn, hg⟩ := invocation_quiet op φ x hop
    exact ⟨φ', hn, hP φ φ' hφ hg⟩
  · obtain ⟨φ', hn, hg⟩ := invocation_lookup id φ x
    exact ⟨φ', hn, hP φ φ' hφ hg⟩
  · exact ⟨φ, rfl, hφ⟩

theorem obeys_anywhere {p : Bench α} (hp : Within HostOp.Unnoticed p) :
    invocationProtocol.Obeys (fun _ => True) p (fun _ _ => True) fun _ _ => True :=
  obeys_unnoticed (fun _ _ _ _ => trivial) hp

/-- The phase keeps the record of what was done to the tree. -/
theorem tree_next {φ φ' : InvocationPhase} {op : HostOp} {x : HostAns op}
    (hn : invocationProtocol.next φ op x = some φ') :
    φ'.tree = φ.tree ++ (treeEvent ⟨op, x⟩).toList := by
  cases op with
  | readToString path =>
    cases hn
    cases x with
    | ok contents => rfl
    | error e => exact (List.append_nil _).symm
  | write path contents =>
    simp only [invocationProtocol] at hn
    split at hn
    · cases hn
      rfl
    · cases hn
  | writeJournal id j =>
    simp only [invocationProtocol] at hn
    split at hn
    · cases hn
      exact (List.append_nil _).symm
    · cases hn
  | coordinate request =>
    simp only [invocationProtocol] at hn
    split at hn
    · cases hn
      exact (List.append_nil _).symm
    · cases hn
  | requireInactive =>
    simp only [invocationProtocol] at hn
    split at hn
    · cases hn
      exact (List.append_nil _).symm
    · cases hn
  | lockFor wait =>
    cases hn
    exact (List.append_nil _).symm
  | journalExists id =>
    cases hn
    split
    · exact (List.append_nil _).symm
    · exact (List.append_nil _).symm
  | readJournal id =>
    cases hn
    split
    · exact (List.append_nil _).symm
    · exact (List.append_nil _).symm
  | readOutcome id =>
    cases hn
    split
    · exact (List.append_nil _).symm
    · exact (List.append_nil _).symm
  | readStatus id =>
    cases hn
    split
    · exact (List.append_nil _).symm
    · exact (List.append_nil _).symm
  | _ =>
    cases hn
    exact (List.append_nil _).symm

/-- An extension appends to the transitions, and is about the same operation. -/
theorem InvocationPhase.Extends.appends {φ : InvocationPhase} {j' : Journal} (h : φ.Extends j j') :
    j.transitions <+: j'.transitions ∧ j'.operationId = j.operationId ∧ j'.entries = j.entries := by
  cases h with
  | outcome o _ _ => exact ⟨List.prefix_rfl, rfl, rfl⟩
  | finished o a a' millis millis' _ _ =>
    exact ⟨(List.prefix_append ..).trans (List.prefix_append ..), rfl, rfl⟩
  | applied a millis _ => exact ⟨List.prefix_append .., rfl, rfl⟩
  | started a millis _ => exact ⟨List.prefix_append .., rfl, rfl⟩
  | recoverable a millis _ => exact ⟨List.prefix_append .., rfl, rfl⟩
  | conflict a millis => exact ⟨List.prefix_append .., rfl, rfl⟩
  | restoring a millis => exact ⟨List.prefix_append .., rfl, rfl⟩
  | restored a millis _ _ => exact ⟨List.prefix_append .., rfl, rfl⟩

theorem obeys_ofExcept {P : InvocationPhase → Prop} {A : α → InvocationPhase → Prop}
    {B : BenchError → InvocationPhase → Prop} {r : Except BenchError α}
    (hA : ∀ a φ, P φ → A a φ) (hB : ∀ e φ, P φ → B e φ) :
    invocationProtocol.Obeys P (ofExcept r) A B := by
  cases r with
  | ok a => exact obeys_pure (hA a)
  | error e => exact obeys_throw (hB e)

/-- A bit that is read is recorded. -/
theorem obeys_readBit (φ : InvocationPhase) (path : PathBuf) :
    invocationProtocol.Obeys (· = φ) (readBit path)
      (fun v φ' => φ' = { φ with tree := φ.tree ++ [.read path v] }) fun _ φ' => φ.Grows φ' := by
  have hread : invocationProtocol.Obeys (· = φ) (readTrimmed path "reading cpuidle value")
      (fun v φ' => φ' = { φ with tree := φ.tree ++ [.read path v] }) fun _ φ' => φ.Grows φ' := by
    apply Obeys.bind (A := fun (x : Except IoError String) φ' => match x with
      | .ok c => φ' = { φ with tree := φ.tree ++ [.read path (trim c)] }
      | .error _ => φ' = φ)
    · apply obeys_ask
      rintro _ x rfl
      refine ⟨_, rfl, ?_⟩
      cases x with
      | ok c => rfl
      | error e => rfl
    · intro x
      cases x with
      | ok c => exact obeys_pure fun _ h => h
      | error e =>
        apply obeys_throw
        rintro _ rfl
        exact .refl _
  apply hread.bind
  intro v
  apply obeys_ite
  · intro _
    apply obeys_throw
    rintro _ rfl
    exact .learned φ _
  · intro _
    exact obeys_pure fun _ h => h

/-- A bit that is written is recorded, with the value that is read back. -/
theorem obeys_writeBit {φ : InvocationPhase} (hφ : φ.MayWrite) (path : PathBuf) (v : String) :
    invocationProtocol.Obeys (· = φ) (writeBit path v)
      (fun _ φ' => φ' = { φ with tree := φ.tree ++ [.wrote path (v ++ "\n"), .read path v] })
      fun _ φ' => φ.Grows φ' := by
  apply Obeys.bind (A := fun _ φ' => φ' = { φ with tree := φ.tree ++ [.wrote path (v ++ "\n")] })
  · apply obeys_ask
    rintro _ x rfl
    exact ⟨_, if_pos hφ, rfl⟩
  intro x
  apply Obeys.bind
  · apply obeys_ofExcept (fun _ _ h => h)
    rintro e _ rfl
    exact .learned φ _
  intro _
  apply ((obeys_readBit _ path).conseq (fun _ h => h) (fun _ _ h => h) ?_).bind
  · intro actual
    apply obeys_ite
    · intro _
      apply obeys_throw
      rintro _ rfl
      exact (Grows.learned φ _).trans (.learned _ _)
    · intro hactual
      apply obeys_pure
      rintro _ rfl
      rw [not_not.mp hactual, List.append_assoc]
      rfl
  · intro _ φ' hg
    exact (Grows.learned φ _).trans hg

/-- Every applied entry is read back in the record. -/
theorem obeys_applyEntries (es : List IdleEntry) {φ : InvocationPhase} (hφ : φ.MayWrite) :
    invocationProtocol.Obeys (· = φ) (applyEntries es)
      (fun _ φ' => φ.Grows φ' ∧ ∀ e ∈ es, e.readBack <:+: φ'.tree) fun _ φ' => φ.Grows φ' := by
  induction es generalizing φ with
  | nil =>
    apply obeys_pure
    rintro _ rfl
    exact ⟨.refl _, by simp⟩
  | cons e rest ih =>
    apply (obeys_readBit φ e.disablePath).bind
    intro current
    apply obeys_ite
    · intro _
      apply obeys_throw
      rintro _ rfl
      exact .learned φ _
    intro _
    apply obeys_of_phase
    rintro φ₁ rfl
    have hgrows := Grows.learned φ [.read e.disablePath current]
    have hmay := hφ.grows hgrows
    apply ((obeys_writeBit hmay e.disablePath e.desired).conseq (fun _ h => h) (fun _ _ h => h)
      fun _ _ h => hgrows.trans h).bind
    intro _
    apply obeys_of_phase
    rintro φ₂ rfl
    have hgrows' := hgrows.trans (Grows.learned { φ with tree := φ.tree ++ [.read e.disablePath current] }
      e.readBack)
    apply (ih (hmay.grows (.learned _ _))).conseq (fun _ h => h)
    · rintro _ φ₃ ⟨hg, hall⟩
      refine ⟨hgrows'.trans hg, ?_⟩
      rintro e' he'
      rcases List.mem_cons.mp he' with rfl | he'
      · exact (List.suffix_append _ _).isInfix.trans hg.tree.isInfix
      · exact hall e' he'
    · intro _ φ₃ hg
      exact hgrows'.trans hg

/-- A journal is stored where the protocol lets it be. -/
theorem obeys_storeJournal {P : InvocationPhase → Prop} (hP : ∀ φ, P φ → φ.MayStore id j) :
    invocationProtocol.Obeys P (storeJournal codec id j)
      (fun _ φ' => ∃ φ, P φ ∧ φ' = { φ with record := .stored id j }) fun _ _ => True := by
  apply (obeys_ofExcept (A := fun _ => P) (fun _ _ h => h) fun _ _ _ => trivial).bind
  intro _
  apply Obeys.bind (A := fun (x : Except BenchError Unit) φ' =>
    x.isOk = true → ∃ φ, P φ ∧ φ' = { φ with record := .stored id j })
  · apply obeys_ask
    intro φ x hφ
    refine ⟨_, if_pos (hP φ hφ), fun hx => ⟨φ, hφ, ?_⟩⟩
    rw [if_pos hx]
  · intro x
    cases x with
    | ok u => exact obeys_pure fun _ h => h rfl
    | error e => exact obeys_throw fun _ _ => trivial

/-- The time of a transition is the only thing about it that is not known beforehand. -/
theorem obeys_transition {P : InvocationPhase → Prop} {stage : Stage} {a : Actor}
    {f : Journal → Bench α} {A : α → InvocationPhase → Prop}
    {B : BenchError → InvocationPhase → Prop}
    (hf : ∀ millis, invocationProtocol.Obeys P (f (j.push stage a millis)) A B) :
    invocationProtocol.Obeys P (j.transition stage a >>= f) A B := by
  intro φ hφ
  apply follows_call
  intro millis
  exact ⟨φ, rfl, hf millis φ hφ⟩

theorem obeys_actorTransition {P : InvocationPhase → Prop} {stage : Stage}
    {f : Journal → Bench α} {A : α → InvocationPhase → Prop}
    {B : BenchError → InvocationPhase → Prop}
    (hf : ∀ a millis, invocationProtocol.Obeys P (f (j.push stage a millis)) A B) :
    invocationProtocol.Obeys P (do f (← j.transition stage (← actor))) A B := by
  intro φ hφ
  apply follows_call
  intro a
  exact ⟨φ, rfl, obeys_transition (hf a) φ hφ⟩

/-- The invocation may write the tree and holds an unfinished journal. -/
structure InvocationPhase.Owning (id : String) (j : Journal) (φ : InvocationPhase) : Prop where
  mayWrite : φ.MayWrite
  holds : φ.Holds id j
  unfinished : j.stage ≠ .restored

theorem InvocationPhase.Owning.grows {φ φ' : InvocationPhase} (h : φ.Owning id j)
    (hg : φ.Grows φ') : φ'.Owning id j :=
  ⟨h.mayWrite.grows hg, h.holds.grows hg, h.unfinished⟩

theorem InvocationPhase.Owning.mayStore {φ : InvocationPhase} (h : φ.Owning id j) {j' : Journal}
    (hj : φ.Extends j j') : φ.MayStore id j' :=
  .extend h.mayWrite.1 h.holds h.unfinished hj

theorem obeys_restoreConflict (e : IdleEntry) (expected actual : String) :
    invocationProtocol.Obeys (InvocationPhase.Owning id j)
      (restoreConflict codec id j e expected actual) (fun _ _ => False) fun _ _ => True := by
  apply obeys_actorTransition
  intro a millis
  apply (obeys_storeJournal fun φ hφ => hφ.mayStore (.conflict a millis)).bind
  intro _
  exact obeys_throw fun _ _ => trivial

/-- The check before a restore stays in charge of the operation. -/
theorem obeys_restoreCheck (es : List IdleEntry) :
    invocationProtocol.Obeys (InvocationPhase.Owning id j) (restoreCheck codec id j es)
      (fun _ => InvocationPhase.Owning id j) fun _ _ => True := by
  induction es with
  | nil => exact obeys_pure fun _ h => h
  | cons e rest ih =>
    apply Obeys.bind (A := fun _ => InvocationPhase.Owning id j)
    · apply obeys_of_phase
      intro φ hφ
      apply (obeys_readBit φ e.disablePath).conseq (fun _ h => h)
      · rintro v _ rfl
        exact hφ.grows (.learned φ _)
      · exact fun _ _ _ => trivial
    intro current
    apply obeys_ite
    · intro _
      exact (obeys_restoreConflict e _ current).conseq (fun _ h => h) (fun _ _ h => h.elim)
        fun _ _ h => h
    · exact fun _ => ih

/-- So do its writes. -/
theorem obeys_restoreWrite (es : List IdleEntry) :
    invocationProtocol.Obeys (InvocationPhase.Owning id j) (restoreWrite codec id j es)
      (fun _ => InvocationPhase.Owning id j) fun _ _ => True := by
  induction es with
  | nil => exact obeys_pure fun _ h => h
  | cons e rest ih =>
    apply Obeys.bind (A := fun _ => InvocationPhase.Owning id j)
    · apply obeys_of_phase
      intro φ hφ
      apply (obeys_readBit φ e.disablePath).conseq (fun _ h => h)
      · rintro v _ rfl
        exact hφ.grows (.learned φ _)
      · exact fun _ _ _ => trivial
    intro current
    apply obeys_ite
    · intro _
      exact (obeys_restoreConflict e _ current).conseq (fun _ h => h) (fun _ _ h => h.elim)
        fun _ _ h => h
    intro _
    apply obeys_ite
    · intro _
      apply Obeys.bind (A := fun _ => InvocationPhase.Owning id j)
      · apply obeys_of_phase
        intro φ hφ
        apply (obeys_writeBit hφ.mayWrite e.disablePath e.original).conseq (fun _ h => h)
        · rintro v _ rfl
          exact hφ.grows (.learned φ _)
        · exact fun _ _ _ => trivial
      · exact fun _ => ih
    · exact fun _ => ih

/-- The final pass leaves its reads at the end of what the invocation has seen. -/
theorem obeys_restoreVerify (es done : List IdleEntry) :
    invocationProtocol.Obeys
      (fun φ => φ.Owning id j ∧ done.map IdleEntry.atOriginal <:+ φ.tree)
      (restoreVerify codec id j es)
      (fun _ φ => φ.Owning id j ∧ (done ++ es).map IdleEntry.atOriginal <:+ φ.tree)
      fun _ _ => True := by
  induction es generalizing done with
  | nil =>
    apply obeys_pure
    intro φ hφ
    rwa [List.append_nil]
  | cons e rest ih =>
    apply Obeys.bind (A := fun v φ => φ.Owning id j ∧
      done.map IdleEntry.atOriginal ++ [.read e.disablePath v] <:+ φ.tree)
    · apply obeys_of_phase
      rintro φ ⟨hφ, hdone⟩
      apply (obeys_readBit φ e.disablePath).conseq (fun _ h => h)
      · rintro v _ rfl
        exact ⟨hφ.grows (.learned φ _), List.suffix_append_inj_of_length_eq rfl |>.mpr ⟨hdone, rfl⟩⟩
      · exact fun _ _ _ => trivial
    intro actual
    apply obeys_ite
    · intro _
      exact (obeys_restoreConflict e _ actual).conseq (fun _ h => h.1) (fun _ _ h => h.elim)
        fun _ _ h => h
    intro hactual
    have hstep := ih (done ++ [e])
    rw [List.append_assoc, List.map_append] at hstep
    rw [not_not.mp hactual]
    exact hstep

theorem obeys_validateInventory {P : InvocationPhase → Prop}
    (hP : ∀ φ φ', P φ → φ.Grows φ' → P φ') (root : PathBuf) (es : List IdleEntry) :
    invocationProtocol.Obeys P (validateInventory root es) (fun _ => P) fun _ => P :=
  obeys_unnoticed hP (within_validateInventory HostOp.unnoticed_of_quiet root es)

/-- What the invocation holds after a store. -/
theorem InvocationPhase.Owning.stored {φ : InvocationPhase} (h : φ.Owning id j) {j' : Journal}
    (hj : j'.stage ≠ .restored) : ({ φ with record := .stored id j' } : InvocationPhase).Owning id j' :=
  ⟨h.mayWrite, Or.inl rfl, hj⟩

/-- A restore obeys the protocol while it is in charge of the operation. -/
theorem obeys_restore (root : PathBuf) :
    invocationProtocol.Obeys (InvocationPhase.Owning id j) (restore codec root id j)
      (fun _ _ => True) fun _ _ => True := by
  have hgrows : ∀ (j : Journal) (φ φ' : InvocationPhase), φ.Owning id j → φ.Grows φ' →
      φ'.Owning id j := fun _ _ _ h hg => h.grows hg
  apply ((obeys_validateInventory (hgrows j) root j.entries).conseq (fun _ h => h)
    (fun _ _ h => h) fun _ _ _ => trivial).bind
  intro _
  apply (obeys_restoreCheck j.entries).bind
  intro _
  apply obeys_actorTransition
  intro a millis
  have hstage : (j.push .restoring a millis).stage ≠ .restored := by
    rw [Journal.push_stage]
    decide
  apply (obeys_storeJournal fun φ hφ => hφ.mayStore (.restoring a millis)).bind
  intro _
  apply Obeys.bind (A := fun _ => InvocationPhase.Owning id (j.push .restoring a millis))
  · apply (obeys_restoreWrite _).conseq _ (fun _ _ h => h) fun _ _ h => h
    rintro _ ⟨φ, hφ, rfl⟩
    exact hφ.stored hstage
  intro _
  apply ((obeys_validateInventory (hgrows _) root _).conseq (fun _ h => h)
    (fun _ _ h => h) fun _ _ _ => trivial).bind
  intro _
  apply ((obeys_restoreVerify _ []).conseq (fun φ hφ => ⟨hφ, List.nil_suffix⟩) (fun _ _ h => h)
    fun _ _ h => h).bind
  intro _
  apply obeys_actorTransition
  intro a' millis'
  apply (obeys_storeJournal fun φ hφ => ?_).conseq (fun _ h => h) (fun _ _ _ => trivial)
    fun _ _ h => h
  exact hφ.1.mayStore (.restored a' millis' (Journal.push_stage ..) hφ.2)

/-- Only the outcome of the held journal may have changed, and only to one that the
runtime directory shows. -/
theorem obeys_reconcileRuntimeOutcome {φ₀ : InvocationPhase} (hmay : φ₀.locked = true)
    (hholds : φ₀.Holds id j) (hstage : j.stage ≠ .restored) :
    invocationProtocol.Obeys (· = φ₀) (reconcileRuntimeOutcome codec id j)
      (fun j' φ => φ.locked = φ₀.locked ∧ φ.cleared = φ₀.cleared ∧ φ.supervised = φ₀.supervised ∧
        φ.Holds id j' ∧ j'.operationId = j.operationId ∧ j'.transitions = j.transitions)
      fun _ _ => True := by
  have hsame : ∀ φ, φ₀.Grows φ → φ.locked = φ₀.locked ∧ φ.cleared = φ₀.cleared ∧
      φ.supervised = φ₀.supervised ∧ φ.Holds id j ∧ j.operationId = j.operationId ∧
      j.transitions = j.transitions :=
    fun φ hg => ⟨hg.locked, hg.cleared, hg.supervised, hholds.grows hg, rfl, rfl⟩
  apply obeys_ite
  · intro hnone
    have hlook : invocationProtocol.Obeys (· = φ₀) (recoverOutcome j.operationId)
        (fun o φ => φ₀.Grows φ ∧ (o.isSome = true → j.operationId ∈ φ.outcomes))
        fun _ _ => True := by
      apply Obeys.bind (A := fun (x : Except BenchError (Option Outcome)) φ => φ₀.Grows φ ∧
        ∀ o, x = .ok (some o) → j.operationId ∈ φ.outcomes)
      · apply obeys_ask
        rintro φ x rfl
        refine ⟨_, rfl, ?_⟩
        rcases x with e | _ | o
        · exact ⟨.refl _, fun _ h => nomatch h⟩
        · exact ⟨.refl _, fun _ h => nomatch h⟩
        · exact ⟨⟨rfl, rfl, rfl, rfl, fun _ h => h, fun _ h => h, List.subset_cons_self ..,
            List.prefix_rfl⟩, fun _ _ => List.mem_cons_self ..⟩
      rintro (e | _ | o)
      · exact obeys_throw fun _ _ => trivial
      · apply Obeys.bind (A := fun (x : Except BenchError (Option WorkloadStatus)) φ =>
          φ₀.Grows φ ∧ ∀ o, x = .ok (some o) → j.operationId ∈ φ.outcomes)
        · apply obeys_ask
          rintro φ x ⟨hg, _⟩
          refine ⟨_, rfl, ?_⟩
          rcases x with e | _ | o
          · exact ⟨hg, fun _ h => nomatch h⟩
          · exact ⟨hg, fun _ h => nomatch h⟩
          · exact ⟨hg.trans ⟨rfl, rfl, rfl, rfl, fun _ h => h, fun _ h => h,
              List.subset_cons_self .., List.prefix_rfl⟩, fun _ _ => List.mem_cons_self ..⟩
        rintro (e | _ | o)
        · exact obeys_throw fun _ _ => trivial
        · exact obeys_pure fun φ hφ => ⟨hφ.1, fun h => nomatch h⟩
        · exact obeys_pure fun φ hφ => ⟨hφ.1, fun _ => hφ.2 _ rfl⟩
      · exact obeys_pure fun φ hφ => ⟨hφ.1, fun _ => hφ.2 _ rfl⟩
    apply hlook.bind
    intro o
    cases o with
    | none => exact obeys_pure fun φ hφ => hsame φ hφ.1
    | some o =>
      apply (obeys_storeJournal fun φ hφ => ?_).bind
      · intro _
        apply obeys_pure
        rintro _ ⟨φ, ⟨hg, _⟩, rfl⟩
        exact ⟨hg.locked, hg.cleared, hg.supervised, Or.inl rfl, rfl, rfl⟩
      · exact .extend (hφ.1.locked.trans hmay) (hholds.grows hφ.1) hstage
          (.outcome _ (hφ.2 rfl) (Option.isNone_iff_eq_none.mp hnone))
  · intro _
    apply obeys_pure
    rintro _ rfl
    exact hsame _ (.refl _)

end Snoozer.Benchctl
