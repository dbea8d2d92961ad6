import Snoozer.SupervisionProtocol

/-! The protocol of an invocation as a process: its calls on the host as before, with the
two calls into the supervisor replaced by what they do. -/
namespace Snoozer.Benchctl
open Interactive Fallible Protocol InvocationPhase

/-- How far `coordinate` has come, with the operation it is about. -/
inductive SupervisionStage where
  | before
  | spawned (operationId : String)
  | ready (operationId : String)
  | authorised
  | drained
  deriving DecidableEq

structure ProcessPhase where
  run : InvocationPhase
  stage : SupervisionStage

/-- The policy is applied and recorded for the operation. -/
def InvocationPhase.Recorded (φ : InvocationPhase) (id : String) : Prop :=
  φ.locked = true ∧ φ.cleared = true ∧ ∃ j, φ.record = .stored id j ∧
    j.stages = [.prepared, .applied, .workloadStarted] ∧ ∀ e ∈ j.entries, e.readBack <:+: φ.tree

namespace ProcessPhase

def initial : ProcessPhase := ⟨.initial, .before⟩

def MayCall (ψ : ProcessPhase) : HostOp → Prop
  | .write _ _ => ψ.stage = .before ∨ ψ.stage = .drained
  | .coordinate _ => False
  | .requireInactive => False
  | _ => True

def sawReady (ψ : ProcessPhase) : ProcessPhase :=
  match ψ.stage with
  | .spawned id => { ψ with stage := .ready id }
  | _ => ψ

end ProcessPhase

open Classical in
/-- Only calls that later arguments rest on are told apart. -/
noncomputable def processProtocol : Protocol ProcessOp ProcessAns ProcessPhase where
  next ψ
    | .host op => fun x =>
      if ψ.MayCall op then (invocationProtocol.next ψ.run op x).map fun φ => { ψ with run := φ }
      else none
    | .tryLockActive => fun (x : Except TryLockError Unit) =>
      if ψ.run.locked then
        some (if x.isOk then { ψ with run := { ψ.run with cleared := true } } else ψ)
      else none
    | .spawnSupervisor request => fun (x : Except IoError ℕ) =>
      if ψ.stage = .before ∧ ψ.run.Recorded request.operationId then
        some (if x.isOk then { ψ with stage := .spawned request.operationId } else ψ)
      else none
    | .spawnGuardian _ => fun _ => if ∃ id, ψ.stage = .spawned id then some ψ else none
    | .fileExists .ready => fun (x : Bool) => some (if x then ψ.sawReady else ψ)
    | .publish .go => fun _ =>
      if ∃ id, ψ.stage = .ready id ∧ ψ.run.Recorded id then some { ψ with stage := .authorised }
      else none
    | .publish .ready => fun _ => none
    | .publish .drained => fun _ => none
    | .wait .guardian => fun (x : Except IoError ExitStatus) =>
      some (match x with
        | .ok status =>
          if status.success = true ∧ ψ.stage = .authorised then { ψ with stage := .drained } else ψ
        | .error _ => ψ)
    | .lockActive => fun _ => none
    | .spawnWorkload _ => fun _ => none
    | .supervisorArguments => fun _ => none
    | .guardianArguments => fun _ => none
    | _ => fun _ => some ψ

/-- The process may have learned more than its part in `cpuidle.rs` knows of. -/
structure InvocationPhase.Known (φ ψ : InvocationPhase) : Prop where
  locked : ψ.locked = φ.locked
  cleared : ψ.cleared = φ.cleared
  supervised : ψ.supervised = none
  record : ψ.record = φ.record
  seen : φ.seen ⊆ ψ.seen
  absent : φ.absent ⊆ ψ.absent
  outcomes : φ.outcomes ⊆ ψ.outcomes
  tree : ψ.tree = φ.tree

section Known

variable {φ φ' ψ : InvocationPhase} {id : String} {j j' : Journal}

theorem InvocationPhase.Known.mayWrite (h : φ.Known ψ) (hφ : φ.MayWrite) : ψ.MayWrite := by
  refine ⟨h.locked.trans hφ.1, h.cleared.trans hφ.2.1, ?_⟩
  rw [h.supervised]
  decide

theorem InvocationPhase.Known.extends (h : φ.Known ψ) (hφ : φ.Extends j j') : ψ.Extends j j' := by
  cases hφ with
  | applied a millis hs => exact .applied a millis hs
  | started a millis hs => exact .started a millis hs
  | outcome o hmem hnone => exact .outcome o (h.outcomes hmem) hnone
  | recoverable a millis hs => exact .recoverable a millis hs
  | finished o a a' millis millis' hs hnone => exact .finished o a a' millis millis' hs hnone
  | conflict a millis => exact .conflict a millis
  | restoring a millis => exact .restoring a millis
  | restored a millis hs hpass => exact .restored a millis hs (by rw [h.tree]; exact hpass)

theorem InvocationPhase.Known.mayStore (h : φ.Known ψ) (hφ : φ.MayStore id j) :
    ψ.MayStore id j := by
  cases hφ with
  | create hlocked hrecord habsent hid houtcome hs =>
    exact .create (h.locked.trans hlocked) (h.record.trans hrecord) (h.absent habsent) hid
      houtcome hs
  | extend hlocked hholds hstage hext =>
    refine .extend (h.locked.trans hlocked) ?_ hstage (h.extends hext)
    rcases hholds with hrecord | ⟨hrecord, hmem⟩
    · exact Or.inl (h.record.trans hrecord)
    · exact Or.inr ⟨h.record.trans hrecord, h.seen hmem⟩

/-- What is permitted stays permitted when more is known. -/
theorem InvocationPhase.Known.next (h : φ.Known ψ) {op : HostOp} {x : HostAns op}
    (hn : invocationProtocol.next φ op x = some φ')
    (hcoordinate : ∀ request, op ≠ .coordinate request) :
    ∃ ψ', invocationProtocol.next ψ op x = some ψ' ∧ φ'.Known ψ' := by
  have hcons : ∀ {β : Type} (a : β) {l l' : List β}, l ⊆ l' → a :: l ⊆ a :: l' :=
    fun a _ _ h => List.cons_subset_cons a h
  cases op with
  | coordinate request => exact absurd rfl (hcoordinate request)
  | lockFor wait =>
    cases hn
    refine ⟨_, rfl, ?_, h.cleared, h.supervised, h.record, h.seen, h.absent, h.outcomes, h.tree⟩
    rw [h.locked]
  | requireInactive =>
    simp only [invocationProtocol] at hn ⊢
    split at hn
    · next hlocked =>
      cases hn
      refine ⟨_, if_pos (h.locked.trans hlocked), h.locked, ?_, h.supervised, h.record, h.seen,
        h.absent, h.outcomes, h.tree⟩
      rw [h.cleared]
    · cases hn
  | journalExists id =>
    cases hn
    refine ⟨_, rfl, ?_⟩
    rw [h.locked]
    split
    · exact ⟨rfl, h.cleared, h.supervised, h.record, h.seen, hcons _ h.absent, h.outcomes,
        h.tree⟩
    · exact h
  | readJournal id =>
    cases hn
    refine ⟨_, rfl, ?_⟩
    rw [h.locked]
    split
    · exact ⟨rfl, h.cleared, h.supervised, h.record, hcons _ h.seen, h.absent, h.outcomes,
        h.tree⟩
    · exact h
  | readOutcome id =>
    cases hn
    refine ⟨_, rfl, ?_⟩
    split
    · exact ⟨h.locked, h.cleared, h.supervised, h.record, h.seen, h.absent, hcons _ h.outcomes,
        h.tree⟩
    · exact h
  | readStatus id =>
    cases hn
    refine ⟨_, rfl, ?_⟩
    split
    · exact ⟨h.locked, h.cleared, h.supervised, h.record, h.seen, h.absent, hcons _ h.outcomes,
        h.tree⟩
    · exact h
  | readToString path =>
    cases hn
    refine ⟨_, rfl, ?_⟩
    split
    · exact ⟨h.locked, h.cleared, h.supervised, h.record, h.seen, h.absent, h.outcomes,
        by rw [h.tree]⟩
    · exact h
  | write path contents =>
    simp only [invocationProtocol] at hn ⊢
    split at hn
    · next hmay =>
      cases hn
      exact ⟨_, if_pos (h.mayWrite hmay), h.locked, h.cleared, h.supervised, h.record, h.seen,
        h.absent, h.outcomes, by rw [h.tree]⟩
    · cases hn
  | writeJournal id j =>
    simp only [invocationProtocol] at hn ⊢
    split at hn
    · next hmay =>
      cases hn
      exact ⟨_, if_pos (h.mayStore hmay), h.locked, h.cleared, h.supervised, rfl, h.seen, h.absent,
        h.outcomes, h.tree⟩
    · cases hn
  | _ =>
    cases hn
    exact ⟨ψ, rfl, h⟩

end Known

section Coordinate

variable {P : ProcessPhase → Prop} {φ₀ : InvocationPhase}

theorem process_terminateGroup (reapLeader : Bool) :
    processProtocol.Obeys P (terminateGroup reapLeader) (fun _ => P) fun _ => P :=
  obeys_terminateGroup (fun _ _ _ => rfl) (fun _ _ _ => rfl) (fun _ _ => rfl) reapLeader
    fun _ _ _ => rfl

/-- The stage of a process whose part in `cpuidle.rs` is at `φ₀`. -/
def AtStage (φ₀ : InvocationPhase) (stage : SupervisionStage) (ψ : ProcessPhase) : Prop :=
  φ₀.Known ψ.run ∧ ψ.stage = stage

/-- Waiting for the ready file ends at it, or in an error that leaves the run known. -/
theorem process_waitForReady (id : String) :
    processProtocol.Obeys (AtStage φ₀ (.spawned id)) waitForReady (fun _ => AtStage φ₀ (.ready id))
      fun _ ψ => φ₀.Known ψ.run := by
  apply Obeys.iterate
  apply Obeys.bind (A := fun (x : Bool) ψ => AtStage φ₀ (if x then .ready id else .spawned id) ψ)
  · apply obeys_ask
    rintro ψ x ⟨hknown, hstage⟩
    refine ⟨_, rfl, ?_⟩
    cases x with
    | true =>
      change AtStage φ₀ (.ready id) ψ.sawReady
      unfold ProcessPhase.sawReady
      rw [hstage]
      exact ⟨hknown, rfl⟩
    | false => exact ⟨hknown, hstage⟩
  intro x
  apply obeys_ite
  · intro hx
    apply obeys_pure
    intro ψ hψ
    rw [if_pos hx] at hψ
    exact ⟨fun h => (nomatch h), fun _ _ => hψ⟩
  intro hx
  simp only [if_neg hx]
  have hfail : ∀ {β : Type} {p : Process β},
      processProtocol.Obeys (AtStage φ₀ (.spawned id)) p (fun _ => AtStage φ₀ (.spawned id))
        (fun _ => AtStage φ₀ (.spawned id)) →
      processProtocol.Obeys (AtStage φ₀ (.spawned id)) p (fun _ => AtStage φ₀ (.spawned id))
        fun _ ψ => φ₀.Known ψ.run :=
    fun h => h.conseq (fun _ h => h) (fun _ _ h => h) fun _ _ h => h.1
  apply (hfail (obeys_ignored fun _ _ => rfl)).bind
  intro x
  apply (hfail (obeys_ofResult _)).bind
  rintro (_ | status)
  · apply (hfail (obeys_ignored fun _ _ => rfl)).bind
    intro x
    apply (hfail (obeys_ofResult _)).bind
    rintro (_ | status)
    · apply (hfail (obeys_ignored fun _ _ => rfl)).bind
      intro passed
      apply obeys_ite
      · intro _
        apply (hfail (process_terminateGroup true)).bind
        exact fun _ => obeys_throw fun _ h => h.1
      intro _
      apply (hfail (obeys_ignored fun _ _ => rfl)).bind
      exact fun _ => obeys_pure fun ψ hψ => ⟨fun _ => hψ, fun _ h => nomatch h⟩
    · exact obeys_throw fun _ h => h.1
  · apply (hfail (process_terminateGroup true)).bind
    exact fun _ => obeys_throw fun _ h => h.1

/-- A status record that is read counts as an outcome of the operation. -/
theorem process_readStatus (id : String) (stage : SupervisionStage) :
    processProtocol.Obeys (AtStage φ₀ stage)
      (ask (ProcessOp.host (.readStatus id)) : Process (Except BenchError (Option WorkloadStatus)))
      (fun _ => AtStage φ₀ stage) fun _ => AtStage φ₀ stage := by
  apply obeys_ask
  rintro ψ x ⟨hknown, hstage⟩
  refine ⟨_, if_pos trivial, ?_⟩
  rcases x with e | _ | status
  · exact ⟨hknown, hstage⟩
  · exact ⟨hknown, hstage⟩
  · exact ⟨⟨hknown.locked, hknown.cleared, hknown.supervised, hknown.record, hknown.seen,
      hknown.absent, fun _ h => List.mem_cons_of_mem _ (hknown.outcomes h), hknown.tree⟩, hstage⟩

/-- Waiting for the outcome changes nothing that the protocol records. -/
theorem process_awaitOutcome (id : String) (timeout : ℕ) :
    processProtocol.Obeys (AtStage φ₀ .authorised) (awaitOutcome id timeout)
      (fun _ => AtStage φ₀ .authorised) fun _ => AtStage φ₀ .authorised := by
  apply Obeys.iterate
  apply (process_readStatus id .authorised).bind
  intro x
  apply (obeys_ofResult _).bind
  rintro (_ | status)
  · apply (obeys_ignored fun _ _ => rfl).bind
    intro cancelled
    apply obeys_ite
    · exact fun _ => obeys_pure fun ψ hψ => ⟨fun _ => hψ, fun _ _ => hψ⟩
    intro _
    apply (obeys_ignored fun _ _ => rfl).bind
    intro passed
    apply obeys_ite
    · exact fun _ => obeys_pure fun ψ hψ => ⟨fun _ => hψ, fun _ _ => hψ⟩
    intro _
    apply (obeys_ignored fun _ _ => rfl).bind
    intro x
    apply (obeys_ofResult _).bind
    rintro (_ | status)
    · apply (obeys_ignored fun _ _ => rfl).bind
      intro x
      apply (obeys_ofResult _).bind
      rintro (_ | status)
      · apply (obeys_ignored fun _ _ => rfl).bind
        exact fun _ => obeys_pure fun ψ hψ => ⟨fun _ => hψ, fun _ _ => hψ⟩
      · apply (process_terminateGroup false).bind
        exact fun _ => obeys_throw fun _ h => h
    · apply (process_terminateGroup true).bind
      exact fun _ => obeys_throw fun _ h => h
  · exact obeys_pure fun ψ hψ => ⟨fun _ => hψ, fun _ _ => hψ⟩

/-- Waiting for the drain proof changes nothing that the protocol records. -/
theorem process_waitForDrained :
    processProtocol.Obeys P waitForDrained (fun _ => P) fun _ => P := by
  apply Obeys.iterate
  apply (obeys_ignored fun _ _ => rfl).bind
  intro x
  apply obeys_ite
  · exact fun _ => obeys_pure fun ψ hψ => ⟨fun _ => hψ, fun _ _ => hψ⟩
  intro _
  apply (obeys_ignored fun _ _ => rfl).bind
  intro x
  apply (obeys_ofResult _).bind
  intro _
  apply (obeys_ignored fun _ _ => rfl).bind
  intro x
  apply (obeys_ofResult _).bind
  rintro (_ | status)
  · apply (obeys_ignored fun _ _ => rfl).bind
    intro passed
    apply obeys_ite
    · exact fun _ => obeys_throw fun _ h => h
    intro _
    apply (obeys_ignored fun _ _ => rfl).bind
    exact fun _ => obeys_pure fun ψ hψ => ⟨fun _ => hψ, fun _ _ => hψ⟩
  · exact obeys_throw fun _ h => h

/-- Draining the workload ends at the proof, or in an error that leaves the run known. -/
theorem process_drainWorkload (outcome : Outcome) :
    processProtocol.Obeys (AtStage φ₀ .authorised) (drainWorkload outcome)
      (fun _ => AtStage φ₀ .drained) fun _ ψ => φ₀.Known ψ.run := by
  have hfail : ∀ {β : Type} {p : Process β} {stage : SupervisionStage},
      processProtocol.Obeys (AtStage φ₀ stage) p (fun _ => AtStage φ₀ stage) (fun _ => AtStage φ₀ stage) →
      processProtocol.Obeys (AtStage φ₀ stage) p (fun _ => AtStage φ₀ stage) fun _ ψ => φ₀.Known ψ.run :=
    fun h => h.conseq (fun _ h => h) (fun _ _ h => h) fun _ _ h => h.1
  apply (hfail (obeys_ignored fun _ _ => rfl)).bind
  intro x
  apply (hfail (obeys_ofResult _)).bind
  intro _
  apply (hfail process_waitForDrained).bind
  intro _
  -- The guardian's exit status is what the coordinator trusts.
  apply Obeys.bind (A := fun (x : Except IoError ExitStatus) ψ => φ₀.Known ψ.run ∧
    ∀ status, x = .ok status → status.success = true → ψ.stage = .drained)
  · apply obeys_ask
    rintro ψ x ⟨hknown, hstage⟩
    refine ⟨_, rfl, ?_⟩
    cases x with
    | error e => exact ⟨hknown, fun _ h => nomatch h⟩
    | ok status =>
      simp only [hstage, and_true]
      split
      · exact ⟨hknown, fun _ _ _ => rfl⟩
      · next hsuccess =>
        refine ⟨hknown, ?_⟩
        rintro _ ⟨⟩ h
        exact absurd h hsuccess
  rintro (e | status)
  · exact obeys_throw fun _ h => h.1
  apply Obeys.bind (A := fun status' ψ => φ₀.Known ψ.run ∧
    (status'.success = true → ψ.stage = .drained))
  · exact obeys_pure fun ψ hψ => ⟨hψ.1, hψ.2 _ rfl⟩
  intro guardianStatus
  apply obeys_ite
  · exact fun _ => obeys_throw fun _ h => h.1
  intro hsuccess
  have hsuccess : guardianStatus.success = true := by simpa using hsuccess
  apply Obeys.bind (A := fun _ => AtStage φ₀ .drained)
  · exact ((hfail (obeys_ignored fun _ _ => rfl)).conseq (fun ψ hψ => ⟨hψ.1, hψ.2 hsuccess⟩)
      (fun _ _ h => h) fun _ _ h => h)
  intro x
  apply (hfail (obeys_ofResult _)).bind
  intro supervisorStatus
  exact obeys_ite (fun _ => obeys_throw fun _ h => h.1) fun _ => obeys_pure fun _ h => h

theorem InvocationPhase.Known.recorded {ψ : InvocationPhase} {request : CoordinateRequest}
    (h : φ₀.Known ψ) (hφ : φ₀.MaySupervise request) : ψ.Recorded request.operationId := by
  obtain ⟨hlocked, hcleared, _, _, j, hrecord, _, hstages, hback⟩ := hφ
  refine ⟨h.locked.trans hlocked, h.cleared.trans hcleared, j, h.record.trans hrecord, hstages, ?_⟩
  rw [h.tree]
  exact hback

/-- From the spawned supervisor over the authorisation to the drained workload. -/
theorem process_authorizeWorkload {request : CoordinateRequest} (hmay : φ₀.MaySupervise request) :
    processProtocol.Obeys (AtStage φ₀ (.spawned request.operationId)) (authorizeWorkload request)
      (fun _ => AtStage φ₀ .drained) fun _ ψ => φ₀.Known ψ.run := by
  have hfail : ∀ {β : Type} {p : Process β},
      processProtocol.Obeys (AtStage φ₀ .authorised) p (fun _ => AtStage φ₀ .authorised)
        (fun _ => AtStage φ₀ .authorised) →
      processProtocol.Obeys (AtStage φ₀ .authorised) p (fun _ => AtStage φ₀ .authorised)
        fun _ ψ => φ₀.Known ψ.run :=
    fun h => h.conseq (fun _ h => h) (fun _ _ h => h) fun _ _ h => h.1
  apply (process_waitForReady request.operationId).bind
  intro _
  apply Obeys.bind (A := fun _ => AtStage φ₀ .authorised)
  · apply obeys_ask
    rintro ψ x ⟨hknown, hstage⟩
    exact ⟨_, if_pos ⟨_, hstage, hknown.recorded hmay⟩, hknown, rfl⟩
  intro x
  apply (hfail (obeys_ofResult _)).bind
  intro _
  apply (hfail (obeys_ignored fun _ _ => rfl)).bind
  intro x
  apply (hfail (obeys_ofResult _)).bind
  intro _
  apply (hfail (process_awaitOutcome _ _)).bind
  intro outcome
  apply (hfail (obeys_ignored fun _ _ => rfl)).bind
  intro x
  apply (hfail (obeys_ofResult _)).bind
  intro _
  apply (hfail (obeys_ignored fun _ _ => rfl)).bind
  intro x
  apply (hfail (obeys_ofResult _)).bind
  intro seam
  apply obeys_ite
  · intro _
    apply Obeys.iterate
    apply (hfail (obeys_ignored fun _ _ => rfl)).bind
    exact fun _ => obeys_pure fun ψ hψ => ⟨fun _ => hψ, fun _ h => nomatch h⟩
  · exact fun _ => process_drainWorkload outcome

/-- The whole supervision of a run that may be supervised. -/
theorem process_coordinate {request : CoordinateRequest} (hmay : φ₀.MaySupervise request) :
    processProtocol.Obeys (AtStage φ₀ .before) (Supervision.coordinate request)
      (fun _ => AtStage φ₀ .drained) fun _ ψ => φ₀.Known ψ.run := by
  have hfail : ∀ {β : Type} {p : Process β} {stage : SupervisionStage},
      processProtocol.Obeys (AtStage φ₀ stage) p (fun _ => AtStage φ₀ stage) (fun _ => AtStage φ₀ stage) →
      processProtocol.Obeys (AtStage φ₀ stage) p (fun _ => AtStage φ₀ stage) fun _ ψ => φ₀.Known ψ.run :=
    fun h => h.conseq (fun _ h => h) (fun _ _ h => h) fun _ _ h => h.1
  apply (hfail (obeys_ignored fun _ _ => rfl)).bind
  intro x
  apply (hfail (obeys_ofResult _)).bind
  intro _
  apply (hfail (obeys_ignored fun _ _ => rfl)).bind
  intro coordinatorPid
  apply Obeys.bind (A := fun _ => AtStage φ₀ .before)
  · apply obeys_ask
    rintro ψ x hψ
    exact ⟨ψ, if_pos trivial, hψ⟩
  intro x
  apply (hfail (obeys_ofResult _)).bind
  intro _
  apply Obeys.bind (A := fun (x : Except IoError ℕ) ψ => φ₀.Known ψ.run ∧
    (x.isOk = true → ψ.stage = .spawned request.operationId))
  · apply obeys_ask
    rintro ψ x ⟨hknown, hstage⟩
    refine ⟨_, if_pos ⟨hstage, hknown.recorded hmay⟩, ?_⟩
    cases x with
    | ok pid => exact ⟨hknown, fun _ => rfl⟩
    | error e => exact ⟨hknown, fun h => nomatch h⟩
  rintro (e | pid)
  · exact obeys_throw fun _ h => h.1
  apply Obeys.bind (A := fun _ => AtStage φ₀ (.spawned request.operationId))
  · exact obeys_pure fun ψ hψ => ⟨hψ.1, hψ.2 rfl⟩
  intro pid
  apply Obeys.bind (A := fun _ => AtStage φ₀ (.spawned request.operationId))
  · exact obeys_ite (fun _ => obeys_pure fun _ h => h) fun _ => obeys_throw fun _ h => h.1
  intro _
  apply Obeys.bind (A := fun _ => AtStage φ₀ (.spawned request.operationId))
  · apply obeys_ask
    rintro ψ x hψ
    exact ⟨ψ, if_pos ⟨_, hψ.2⟩, hψ⟩
  rintro (e | u)
  · apply (hfail (process_terminateGroup true)).bind
    exact fun _ => obeys_throw fun _ h => h.1
  · exact process_authorizeWorkload hmay

end Coordinate

/-- A group that was found inactive is recorded as cleared. -/
theorem process_requireInactive {φ₀ : InvocationPhase} {stage : SupervisionStage}
    (hlocked : φ₀.locked = true) :
    processProtocol.Obeys (AtStage φ₀ stage) requireInactive
      (fun _ => AtStage { φ₀ with cleared := true } stage) fun _ => AtStage φ₀ stage := by
  apply (obeys_ignored fun _ _ => rfl).bind
  intro x
  apply (obeys_ofResult _).bind
  intro _
  apply Obeys.iterate
  apply Obeys.bind (A := fun (x : Except TryLockError Unit) ψ =>
    if x.isOk then AtStage { φ₀ with cleared := true } stage ψ else AtStage φ₀ stage ψ)
  · apply obeys_ask
    rintro ψ x ⟨hknown, hstage⟩
    refine ⟨_, if_pos (hknown.locked.trans hlocked), ?_⟩
    cases x with
    | ok u => exact ⟨⟨hknown.locked, rfl, hknown.supervised, hknown.record, hknown.seen,
        hknown.absent, hknown.outcomes, hknown.tree⟩, hstage⟩
    | error e => exact ⟨hknown, hstage⟩
  rintro (e | u)
  · cases e with
    | wouldBlock =>
      apply (obeys_ignored fun _ _ => rfl).bind
      intro passed
      apply obeys_ite
      · exact fun _ => obeys_throw fun _ h => h
      intro _
      apply (obeys_ignored fun _ _ => rfl).bind
      exact fun _ => obeys_pure fun ψ hψ => ⟨fun _ => hψ, fun _ h => nomatch h⟩
    | error source => exact obeys_throw fun _ h => h
  · exact obeys_pure fun ψ hψ => ⟨fun h => (nomatch h), fun _ _ => hψ⟩

/-- What a process knows of its part in `cpuidle.rs` at a call of that part. -/
def ProcessPhase.Covers (φ : InvocationPhase) (ψ : ProcessPhase) : Prop :=
  φ.Known ψ.run ∧ (φ.supervised = none → ψ.stage = .before) ∧
    (φ.supervised = some true → ψ.stage = .drained)

theorem expandCall_eq {op : HostOp} (hcoordinate : ∀ request, op ≠ .coordinate request)
    (hinactive : op ≠ .requireInactive) : expandCall op = .perform (ProcessOp.host op) := by
  cases op with
  | coordinate request => exact absurd rfl (hcoordinate request)
  | requireInactive => exact absurd rfl hinactive
  | _ => rfl

/-- Only the supervisor's outcome says how the supervision went. -/
theorem supervised_next {φ φ' : InvocationPhase} {op : HostOp} {x : HostAns op}
    (hn : invocationProtocol.next φ op x = some φ')
    (hcoordinate : ∀ request, op ≠ .coordinate request) : φ'.supervised = φ.supervised := by
  cases op with
  | coordinate request => exact absurd rfl (hcoordinate request)
  | requireInactive =>
    simp only [invocationProtocol] at hn
    split at hn
    · cases hn
      rfl
    · cases hn
  | write path contents =>
    simp only [invocationProtocol] at hn
    split at hn
    · cases hn
      rfl
    · cases hn
  | writeJournal id j =>
    simp only [invocationProtocol] at hn
    split at hn
    · cases hn
      rfl
    · cases hn
  | lockFor wait => cases hn; rfl
  | journalExists id => cases hn; split <;> rfl
  | readJournal id => cases hn; split <;> rfl
  | readOutcome id => cases hn; split <;> rfl
  | readStatus id => cases hn; split <;> rfl
  | readToString path => cases hn; split <;> rfl
  | _ => cases hn; rfl

/-- The program in the place of a call does what the protocol says of the call. -/
theorem process_expandCall {φ : InvocationPhase} {ψ : ProcessPhase} {op : HostOp}
    (hψ : ProcessPhase.Covers φ ψ) (hallows : invocationProtocol.Allows (some op) φ) :
    processProtocol.Follows (expandCall op) ψ fun x ψ' =>
      ∃ φ', invocationProtocol.next φ op x = some φ' ∧ ProcessPhase.Covers φ' ψ' := by
  obtain ⟨hknown, hbefore, hdrained⟩ := hψ
  by_cases hcoordinate : ∃ request, op = .coordinate request
  · obtain ⟨request, rfl⟩ := hcoordinate
    have hmay : φ.MaySupervise request := by
      by_contra hno
      have hnext := hallows (.coordinate request) rfl (.error (.state ""))
      simp only [invocationProtocol, if_neg hno] at hnext
      cases hnext
    apply follows_mono (process_coordinate hmay ψ ⟨hknown, hbefore hmay.2.2.1⟩)
    rintro (e | outcome) ψ' hψ'
    · refine ⟨_, if_pos hmay, ⟨hψ'.locked, hψ'.cleared, hψ'.supervised, hψ'.record, hψ'.seen,
        hψ'.absent, hψ'.outcomes, hψ'.tree⟩, fun h => ?_, fun h => ?_⟩
      · cases h
      · cases h
    · obtain ⟨hψ', hstage⟩ := hψ'
      refine ⟨_, if_pos hmay, ⟨hψ'.locked, hψ'.cleared, hψ'.supervised, hψ'.record, hψ'.seen,
        hψ'.absent, hψ'.outcomes, hψ'.tree⟩, fun h => ?_, fun _ => hstage⟩
      cases h
  have hcoordinate : ∀ request, op ≠ .coordinate request := fun request h => hcoordinate ⟨request, h⟩
  by_cases hinactive : op = .requireInactive
  · subst hinactive
    have hlocked : φ.locked = true := by
      by_contra hno
      have hnext := hallows .requireInactive rfl (.ok ())
      simp only [invocationProtocol, if_neg hno] at hnext
      cases hnext
    apply follows_mono (process_requireInactive hlocked ψ ⟨hknown, rfl⟩)
    rintro (e | u) ψ' ⟨hψ', hstage⟩
    · refine ⟨_, if_pos hlocked, ⟨hψ'.locked, ?_, hψ'.supervised, hψ'.record, hψ'.seen,
        hψ'.absent, hψ'.outcomes, hψ'.tree⟩, fun h => hstage.trans (hbefore h),
        fun h => hstage.trans (hdrained h)⟩
      rw [hψ'.cleared]
      exact (Bool.or_false _).symm
    · refine ⟨_, if_pos hlocked, ⟨hψ'.locked, ?_, hψ'.supervised, hψ'.record, hψ'.seen,
        hψ'.absent, hψ'.outcomes, hψ'.tree⟩, fun h => hstage.trans (hbefore h),
        fun h => hstage.trans (hdrained h)⟩
      rw [hψ'.cleared]
      exact (Bool.or_true _).symm
  rw [expandCall_eq hcoordinate hinactive]
  apply follows_call
  intro x
  obtain ⟨φ', hn⟩ := Option.isSome_iff_exists.mp (hallows op rfl x)
  obtain ⟨ψ', hn', hknown'⟩ := hknown.next hn hcoordinate
  have hsame := supervised_next hn hcoordinate
  have hmay : ψ.MayCall op := by
    cases op with
    | coordinate request => exact absurd rfl (hcoordinate request)
    | requireInactive => exact absurd rfl hinactive
    | write path contents =>
      simp only [invocationProtocol] at hn
      split at hn
      · next hmay =>
        rcases hv : φ.supervised with _ | _ | _
        · exact Or.inl (hbefore hv)
        · exact absurd hv hmay.2.2
        · exact Or.inr (hdrained hv)
      · cases hn
    | _ => trivial
  refine ⟨{ ψ with run := ψ' }, ?_, follows_ret ⟨φ', hn, hknown', ?_, ?_⟩⟩
  · simp only [processProtocol, if_pos hmay, hn', Option.map_some]
  · rw [hsame]
    exact hbefore
  · rw [hsame]
    exact hdrained

theorem invocation_loopFree (codec : Codec) (sysfsRoot stateRoot : PathBuf)
    (invocation : Invocation) :
    (invocation.program codec sysfsRoot stateRoot).run.LoopFree := by
  cases invocation with
  | run request => exact (within_coordinateRun _).loopFree
  | recover operationId => exact (within_recover _ _).loopFree

/-- Every invocation, as a process, obeys its protocol. -/
theorem process_invocation (codec : Codec) (sysfsRoot stateRoot : PathBuf)
    (invocation : Invocation) :
    processProtocol.Obeys (· = .initial)
      (process (asProcess (invocation.program codec sysfsRoot stateRoot))) (fun _ _ => True)
      fun _ _ => True := by
  apply Obeys.bind (A := fun _ _ => True)
  · apply Obeys.attempt
    rintro _ rfl
    have hcovers : ProcessPhase.Covers .initial .initial :=
      ⟨⟨rfl, rfl, rfl, rfl, fun _ h => h, fun _ h => h, fun _ h => h, rfl⟩, fun _ => rfl,
        fun h => nomatch h⟩
    apply follows_mono (Follows.handle (fun φ ψ op hψ hop => process_expandCall hψ hop)
      (invocation_loopFree codec sysfsRoot stateRoot invocation)
      (obeys_invocation codec sysfsRoot stateRoot invocation) hcovers)
    rintro (e | u) ψ _
    · trivial
    · trivial
  intro r
  apply obeys_ask
  intro ψ x _
  exact ⟨ψ, rfl, trivial⟩

end Snoozer.Benchctl
