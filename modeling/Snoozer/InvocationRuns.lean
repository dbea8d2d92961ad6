import Snoozer.CrashRecovery
import Snoozer.InvocationProtocol

/-! Runs and recoveries obey the protocol of an invocation, whatever their calls are
answered. -/
namespace Snoozer.Benchctl
open Interactive Fallible Protocol InvocationPhase

variable {codec : Codec} {α : Type} {id : String} {j : Journal}

/-- The invocation has stored the journal of a new operation and may write the tree. -/
structure InvocationPhase.Running (id : String) (j : Journal) (v : Option Bool)
    (φ : InvocationPhase) : Prop where
  locked : φ.locked = true
  cleared : φ.cleared = true
  supervised : φ.supervised = v
  record : φ.record = .stored id j
  absent : id ∈ φ.absent

theorem InvocationPhase.Running.owning {φ : InvocationPhase} {v : Option Bool}
    (h : φ.Running id j v) (hv : v ≠ some false) (hj : j.stage ≠ .restored) : φ.Owning id j :=
  ⟨⟨h.locked, h.cleared, by rw [h.supervised]; exact hv⟩, Or.inl h.record, hj⟩

theorem InvocationPhase.Running.stored {φ : InvocationPhase} {v : Option Bool}
    (h : φ.Running id j v) (j' : Journal) :
    ({ φ with record := .stored id j' } : InvocationPhase).Running id j' v :=
  ⟨h.locked, h.cleared, h.supervised, rfl, h.absent⟩

theorem stage_of_stages {j : Journal} {l : List Stage} {stage : Stage}
    (h : j.stages = l ++ [stage]) : j.stage = stage := by
  rw [Journal.stages] at h
  rw [Journal.stage, ← List.getLast?_map, h, List.getLast?_concat, Option.getD_some]

/-- The end of a run, from the outcome on. -/
theorem obeys_finishRun (request : RunRequest) (coordinator : Actor) (outcome : Outcome)
    (hid : j.operationId = id) (hnone : j.outcome = none)
    (hstages : j.stages = [.prepared, .applied, .workloadStarted]) :
    invocationProtocol.Obeys (InvocationPhase.Running id j (some true))
      (finishRun codec request coordinator j outcome) (fun _ _ => True) fun _ _ => True := by
  subst hid
  have hstage : j.stage ≠ .restored := by
    rw [stage_of_stages (l := [.prepared, .applied]) hstages]
    decide
  apply obeys_transition
  intro millis
  apply obeys_actorTransition
  intro a millis'
  apply (obeys_storeJournal fun φ hφ => ?_).bind
  · intro _
    apply ((obeys_restore request.sysfsRoot).conseq ?_ (fun _ _ h => h) fun _ _ h => h).bind
    · intro _
      apply ((obeys_anywhere (within_cleanupRuntime HostOp.unnoticed_of_quiet _))).bind
      intro _
      exact obeys_ofExcept (fun _ _ _ => trivial) fun _ _ _ => trivial
    · rintro _ ⟨φ, hφ, rfl⟩
      apply (hφ.stored _).owning (by decide)
      rw [Journal.push_stage]
      decide
  · exact .extend hφ.locked (Or.inl hφ.record) hstage
      (.finished (terminalOutcome outcome) coordinator a millis millis' hstages hnone)

theorem stages_push (j : Journal) (stage : Stage) (a : Actor) (millis : ℕ) :
    (j.push stage a millis).stages = j.stages ++ [stage] := by
  simp [Journal.stages, Journal.push]

/-- The supervision of a run whose entries were all read back. -/
theorem obeys_superviseRun (request : RunRequest) (accepted : Acceptance) (clientWatch : Bool)
    (coordinator : Actor) (hid : j.operationId = accepted.operationId) (hnone : j.outcome = none)
    (hstages : j.stages = [.prepared]) :
    invocationProtocol.Obeys
      (fun φ => φ.Running accepted.operationId j none ∧ ∀ e ∈ j.entries, e.readBack <:+: φ.tree)
      (superviseRun codec request accepted clientWatch coordinator j) (fun _ _ => True)
      fun _ _ => True := by
  have hprepared : j.stage ≠ .restored := by
    rw [stage_of_stages (l := []) hstages]
    decide
  apply obeys_transition
  intro millis
  have happlied : (j.push .applied coordinator millis).stages = [.prepared, .applied] := by
    rw [stages_push, hstages]
    rfl
  apply (obeys_storeJournal fun φ hφ => .extend hφ.1.locked (Or.inl hφ.1.record) hprepared
    (.applied coordinator millis hstages)).bind
  intro _
  apply obeys_transition
  intro millis'
  generalize hj₁ : j.push .applied coordinator millis = j₁ at *
  have hentries₁ : j₁.entries = j.entries := by rw [← hj₁, Journal.push_entries]
  have hid₁ : j₁.operationId = accepted.operationId := by
    rw [← hj₁]
    exact hid
  have hnone₁ : j₁.outcome = none := by
    rw [← hj₁]
    exact hnone
  have hstage₁ : j₁.stage ≠ .restored := by
    rw [stage_of_stages (l := [.prepared]) happlied]
    decide
  have hstarted : (j₁.push .workloadStarted coordinator millis').stages =
      [.prepared, .applied, .workloadStarted] := by
    rw [stages_push, happlied]
    rfl
  apply (obeys_storeJournal (P := fun φ => φ.Running accepted.operationId j₁ none ∧
      ∀ e ∈ j₁.entries, e.readBack <:+: φ.tree) fun φ hφ => .extend hφ.1.locked
    (Or.inl hφ.1.record) hstage₁ (.started coordinator millis' happlied)).conseq ?_
      (fun _ _ h => h) (fun _ _ h => h) |>.bind
  swap
  · rintro _ ⟨φ, ⟨hφ, hback⟩, rfl⟩
    rw [hentries₁]
    exact ⟨hφ.stored _, hback⟩
  intro _
  generalize hj₂ : j₁.push .workloadStarted coordinator millis' = j₂ at *
  have hentries₂ : j₂.entries = j₁.entries := by rw [← hj₂, Journal.push_entries]
  have hid₂ : j₂.operationId = accepted.operationId := by
    rw [← hj₂]
    exact hid₁
  have hnone₂ : j₂.outcome = none := by
    rw [← hj₂]
    exact hnone₁
  have hstage₂ : j₂.stage ≠ .restored := by
    rw [stage_of_stages (l := [.prepared, .applied]) hstarted]
    decide
  -- The call into the supervisor is made with the policy applied and recorded.
  apply Obeys.bind (A := fun (x : Except BenchError Outcome) φ =>
    φ.Running accepted.operationId j₂ (some x.isOk))
  · apply obeys_ask
    rintro _ x ⟨φ, ⟨hφ, hback⟩, rfl⟩
    have hrun := hφ.stored j₂
    refine ⟨_, if_pos ⟨hrun.locked, hrun.cleared, hrun.supervised, hrun.absent, j₂, hrun.record, hid₂,
      hstarted, ?_⟩, hrun.locked, hrun.cleared, rfl, hrun.record, hrun.absent⟩
    rw [hentries₂]
    exact hback
  intro x
  cases x with
  | ok outcome =>
    exact obeys_finishRun request coordinator outcome hid₂ hnone₂ hstarted
  | error error =>
    apply Obeys.bind (A := fun j' φ => φ.locked = true ∧ φ.Holds accepted.operationId j' ∧
      j'.transitions = j₂.transitions)
    · apply obeys_of_phase
      intro φ hφ
      apply (obeys_reconcileRuntimeOutcome hφ.locked (Or.inl hφ.record) hstage₂).conseq
        (fun _ h => h) _ fun _ _ h => h
      rintro j' φ' ⟨hlocked, _, _, hholds, _, htransitions⟩
      exact ⟨hlocked.trans hφ.locked, hholds, htransitions⟩
    intro j'
    apply obeys_actorTransition
    intro a millis''
    apply Obeys.bind (A := fun _ _ => True)
    · apply obeys_of_phase
      rintro φ ⟨hlocked, hholds, htransitions⟩
      have hstages' : j'.stages = [.prepared, .applied, .workloadStarted] := by
        rw [Journal.stages, htransitions]
        exact hstarted
      have hstage' : j'.stage ≠ .restored := by
        rw [stage_of_stages (l := [.prepared, .applied]) hstages']
        decide
      apply (obeys_storeJournal ?_).conseq (fun _ h => h) (fun _ _ _ => trivial) fun _ _ h => h
      rintro _ rfl
      exact .extend hlocked hholds hstage' (.recoverable a millis'' hstages')
    · intro _
      exact obeys_throw fun _ _ => trivial

/-- Both locks are held and nothing was stored yet. -/
structure InvocationPhase.Entered (φ : InvocationPhase) : Prop where
  locked : φ.locked = true
  cleared : φ.cleared = true
  supervised : φ.supervised = none
  record : φ.record = .untouched

theorem InvocationPhase.Entered.grows {φ φ' : InvocationPhase} (h : φ.Entered)
    (hg : φ.Grows φ') : φ'.Entered :=
  ⟨hg.locked.trans h.locked, hg.cleared.trans h.cleared, hg.supervised.trans h.supervised,
    hg.record.trans h.record⟩

/-- A run of an operation that was found absent. -/
theorem obeys_executeRun (request : RunRequest) (accepted : Acceptance) :
    invocationProtocol.Obeys (fun φ => φ.Entered ∧ accepted.operationId ∈ φ.absent)
      (executeRun codec request accepted) (fun _ _ => True) fun _ _ => True := by
  have hquiet := HostOp.unnoticed_of_quiet
  -- Until the journal is stored the run only learns, and writes its snapshots.
  let P : InvocationPhase → Prop := fun φ => φ.Entered ∧ accepted.operationId ∈ φ.absent
  have hgrows : ∀ φ φ', P φ → φ.Grows φ' → P φ' :=
    fun φ φ' hφ hg => ⟨hφ.1.grows hg, hg.absent hφ.2⟩
  have hkeep : ∀ {β : Type} {p : Bench β}, Within HostOp.Unnoticed p →
      invocationProtocol.Obeys P p (fun _ => P) fun _ _ => True := fun hp =>
    (obeys_unnoticed hgrows hp).conseq (fun _ h => h) (fun _ _ h => h) fun _ _ _ => trivial
  apply (hkeep (within_requireNoUnfinishedJournal hquiet)).bind
  intro _
  apply (hkeep (within_ask (Or.inl rfl))).bind
  intro x
  apply (hkeep (within_ofExcept x)).bind
  intro clientWatch
  apply (hkeep (within_acceptSnapshots hquiet (fun _ _ => Or.inr (Or.inr ⟨_, _, rfl⟩)) accepted)).bind
  intro _
  apply (hkeep (within_ask (Or.inl rfl))).bind
  intro x
  apply (hkeep (within_ofExcept x)).bind
  intro _
  apply (hkeep (within_ask (Or.inl rfl))).bind
  intro coordinator
  apply (hkeep (within_readBootId hquiet)).bind
  intro bootId
  apply Obeys.bind (A := fun j φ => P φ ∧ j.operationId = accepted.operationId ∧
    j.outcome = none ∧ j.stages = [.prepared])
  · apply (hkeep (within_ask (Or.inl rfl))).bind
    intro millis
    exact obeys_pure fun φ hφ => ⟨hφ, rfl, rfl, rfl⟩
  intro j
  apply obeys_of_phase
  rintro φ₀ ⟨hφ₀, hid, houtcome, hstages⟩
  apply Obeys.bind (A := fun _ => P)
  · apply (hkeep (within_inventory hquiet _ _)).conseq _ (fun _ _ h => h) fun _ _ h => h
    rintro _ rfl
    exact hφ₀
  intro entries
  generalize hj' : ({ j with entries := entries } : Journal) = j'
  have hid' : j'.operationId = accepted.operationId := by rw [← hj']; exact hid
  have houtcome' : j'.outcome = none := by rw [← hj']; exact houtcome
  have hstages' : j'.stages = [.prepared] := by rw [← hj']; exact hstages
  have hstage' : j'.stage ≠ .restored := by
    rw [stage_of_stages (l := []) hstages']
    decide
  apply (obeys_storeJournal fun φ hφ => .create hφ.1.locked hφ.1.record hφ.2 hid' houtcome'
    hstages').bind
  intro _
  apply Obeys.bind (A := fun (x : Except BenchError Unit) φ =>
    φ.Running accepted.operationId j' none ∧
      (x.isOk = true → ∀ e ∈ j'.entries, e.readBack <:+: φ.tree))
  · apply Obeys.attempt
    have hrunning : ∀ φ φ' : InvocationPhase, φ.Running accepted.operationId j' none →
        φ.Grows φ' → φ'.Running accepted.operationId j' none := fun φ φ' h hg =>
      ⟨hg.locked.trans h.locked, hg.cleared.trans h.cleared, hg.supervised.trans h.supervised,
        hg.record.trans h.record, hg.absent h.absent⟩
    apply obeys_of_phase
    rintro _ ⟨φ, ⟨hentered, habsent⟩, rfl⟩
    have hrun : ({ φ with record := .stored accepted.operationId j' } : InvocationPhase).Running
        accepted.operationId j' none :=
      ⟨hentered.locked, hentered.cleared, hentered.supervised, rfl, habsent⟩
    apply Obeys.bind (A := fun _ φ' => φ'.Running accepted.operationId j' none)
    · apply (obeys_validateInventory hrunning request.sysfsRoot j'.entries).conseq _
        (fun _ _ h => h) fun e φ' hrun' => ⟨hrun', fun h => nomatch h⟩
      rintro _ rfl
      exact hrun
    intro _
    apply obeys_of_phase
    intro φ₁ hrun₁
    apply (obeys_applyEntries j'.entries (hrun₁.owning (by decide) hstage').mayWrite).conseq
      (fun _ h => h)
    · rintro _ φ₂ ⟨hg₂, hback⟩
      exact ⟨hrunning _ _ hrun₁ hg₂, fun _ => hback⟩
    · intro e φ₂ hg₂
      exact ⟨hrunning _ _ hrun₁ hg₂, fun h => nomatch h⟩
  intro x
  cases x with
  | ok _ =>
    apply (obeys_superviseRun request accepted clientWatch coordinator hid' houtcome' hstages').conseq
      (fun φ hφ => ⟨hφ.1, hφ.2 rfl⟩) (fun _ _ h => h) fun _ _ h => h
  | error error =>
    apply Obeys.bind (A := fun _ _ => True)
    · apply Obeys.attempt
      exact (obeys_restore request.sysfsRoot).conseq (fun φ hφ => hφ.1.owning (by decide) hstage')
        (fun _ _ _ => trivial) fun _ _ _ => trivial
    intro result
    cases result with
    | ok _ => exact obeys_throw fun _ _ => trivial
    | error restoreError => exact obeys_throw fun _ _ => trivial

/-- The two locks are taken one after the other, before anything else is looked at. -/
theorem obeys_enterStateDirectory (wait : Bool) :
    invocationProtocol.Obeys (· = .initial) (enterStateDirectory wait)
      (fun _ φ => φ.Entered) fun _ _ => True := by
  have hsecure : Within HostOp.Unnoticed secureStateDirectory :=
    within_call (Or.inl rfl) fun _ => (within_ofExcept _).bind fun _ =>
      within_call (Or.inl rfl) fun _ => (within_ofExcept _).bind fun _ => .ite (within_throw _) <|
      within_call (Or.inl rfl) fun _ => .ite (within_throw _) (within_pure _)
  let P : InvocationPhase → Prop := fun φ => φ.supervised = none ∧ φ.record = .untouched
  have hkeep : ∀ {β : Type} {p : Bench β}, Within HostOp.Unnoticed p →
      invocationProtocol.Obeys P p (fun _ => P) fun _ _ => True := fun hp =>
    (obeys_unnoticed (fun φ φ' hφ hg => ⟨hg.supervised.trans hφ.1, hg.record.trans hφ.2⟩)
      hp).conseq (fun _ h => h) (fun _ _ h => h) fun _ _ _ => trivial
  apply Obeys.bind (A := fun _ => P)
  · apply (hkeep (within_ask (Or.inl rfl))).conseq _ (fun _ _ h => h) fun _ _ h => h
    rintro _ rfl
    exact ⟨rfl, rfl⟩
  intro x
  apply (hkeep (within_ofExcept _)).bind
  intro _
  apply (hkeep hsecure).bind
  intro _
  apply Obeys.bind (A := fun (x : Except BenchError Unit) φ =>
    P φ ∧ (x.isOk = true → φ.locked = true))
  · apply obeys_ask
    rintro φ x hφ
    refine ⟨_, rfl, hφ, fun hx => ?_⟩
    simp only [hx, Bool.or_true]
  rintro (e | u)
  · exact obeys_throw fun _ _ => trivial
  apply Obeys.bind (A := fun (x : Except BenchError Unit) φ =>
    P φ ∧ φ.locked = true ∧ (x.isOk = true → φ.cleared = true))
  · apply obeys_ask
    rintro φ x ⟨hφ, hlocked⟩
    refine ⟨_, if_pos (hlocked rfl), hφ, hlocked rfl, fun hx => ?_⟩
    simp only [hx, Bool.or_true]
  rintro (e | u)
  · exact obeys_throw fun _ _ => trivial
  · exact obeys_pure fun φ hφ => ⟨hφ.2.1, hφ.2.2 rfl, hφ.1.1, hφ.1.2⟩

theorem obeys_entered {p : Bench α} (hp : Within HostOp.Unnoticed p) :
    invocationProtocol.Obeys InvocationPhase.Entered p (fun _ => InvocationPhase.Entered)
      fun _ _ => True :=
  (obeys_unnoticed (fun _ _ h hg => h.grows hg) hp).conseq (fun _ h => h) (fun _ _ h => h)
    fun _ _ _ => trivial

/-- A run, on any request, whatever its calls are answered. -/
theorem obeys_coordinateRun (request : RunRequest) :
    invocationProtocol.Obeys (· = .initial) (coordinateRun codec request) (fun _ _ => True)
      fun _ _ => True := by
  have hquiet := HostOp.unnoticed_of_quiet
  apply Obeys.bind (A := fun _ => (· = .initial))
  · apply obeys_ite
    · exact fun _ => obeys_throw fun _ _ => trivial
    · exact fun _ => obeys_ite (fun _ => obeys_throw fun _ _ => trivial)
        fun _ => obeys_pure fun _ h => h
  intro cpus
  apply Obeys.bind (A := fun _ => InvocationPhase.Entered)
  · apply (obeys_enterStateDirectory false).bind
    intro _
    apply (obeys_entered (within_ask (Or.inl rfl))).bind
    intro x
    apply (obeys_entered (within_ofExcept x)).bind
    intro workloadActor
    apply (obeys_entered (within_loadReceipt hquiet _)).bind
    intro receipt
    apply (obeys_entered (within_ask (Or.inl rfl))).bind
    intro x
    apply (obeys_entered (within_ofExcept x)).bind
    intro _
    apply (obeys_entered (within_fileDigest hquiet _ _)).bind
    intro receiptHash
    apply Obeys.bind (A := fun _ => InvocationPhase.Entered)
    · cases request.operationId with
      | none => exact obeys_entered (within_ask (Or.inl rfl))
      | some id => exact obeys_pure fun _ h => h
    intro operationId
    apply Obeys.bind (A := fun _ => InvocationPhase.Entered)
    · exact obeys_ite (fun _ => obeys_pure fun _ h => h) fun _ => obeys_throw fun _ _ => trivial
    intro _
    exact obeys_pure fun _ h => h
  intro accepted
  apply Obeys.bind (A := fun (x : Bool) φ => φ.Entered ∧
    (x = false → accepted.operationId ∈ φ.absent))
  · apply obeys_ask
    rintro φ x hφ
    obtain ⟨φ', hn, hg⟩ := invocation_lookup accepted.operationId φ x
    refine ⟨φ', hn, hφ.grows hg, ?_⟩
    rintro rfl
    have hφ' : some { φ with absent := accepted.operationId :: φ.absent } = some φ' := by
      rw [← hn]
      simp [invocationProtocol, hφ.locked]
    cases hφ'
    exact List.mem_cons_self ..
  intro x
  apply obeys_ite
  · intro _
    exact (obeys_entered (within_replayJournal hquiet accepted)).conseq (fun _ h => h.1)
      (fun _ _ _ => trivial) fun _ _ h => h
  · intro hx
    apply (obeys_executeRun _ accepted).conseq _ (fun _ _ h => h) fun _ _ h => h
    rintro φ ⟨hφ, habsent⟩
    exact ⟨hφ, habsent (Bool.eq_false_iff.mpr hx)⟩

/-- A journal that was loaded has been seen. -/
theorem obeys_loadJournal (id : String) :
    invocationProtocol.Obeys InvocationPhase.Entered (loadJournal codec id)
      (fun j φ => φ.Entered ∧ (id, j) ∈ φ.seen) fun _ _ => True := by
  apply Obeys.bind (A := fun (x : Except BenchError Journal) φ => φ.Entered ∧
    ∀ j, x = .ok j → (id, j) ∈ φ.seen)
  · apply obeys_ask
    rintro φ x hφ
    obtain ⟨φ', hn, hg⟩ := invocation_quiet (.readJournal id) φ x rfl
    refine ⟨φ', hn, hφ.grows hg, ?_⟩
    rintro j rfl
    have hφ' : some { φ with seen := (id, j) :: φ.seen } = some φ' := by
      rw [← hn]
      simp [invocationProtocol, hφ.locked]
    cases hφ'
    exact List.mem_cons_self ..
  rintro (e | j)
  · exact obeys_throw fun _ _ => trivial
  · change invocationProtocol.Obeys _ (ofExcept (j.validate codec) >>= fun _ => pure j) _ _
    apply Obeys.bind (A := fun _ φ => φ.Entered ∧ (id, j) ∈ φ.seen)
    · exact obeys_ofExcept (fun _ _ h => ⟨h.1, h.2 j rfl⟩) fun _ _ _ => trivial
    intro _
    exact obeys_pure fun φ hφ => hφ

/-- The recovery of one operation. -/
theorem obeys_recoverJournal (root : PathBuf) (id : String) :
    invocationProtocol.Obeys InvocationPhase.Entered (recoverJournal codec root id)
      (fun _ _ => True) fun _ _ => True := by
  apply (obeys_loadJournal id).bind
  intro j
  apply obeys_ite
  · intro _
    exact (obeys_anywhere (within_cleanupRuntime HostOp.unnoticed_of_quiet _)).conseq
      (fun _ _ => trivial) (fun _ _ h => h) fun _ _ h => h
  intro hstage
  apply ((obeys_unnoticed (fun _ _ hφ hg => ⟨hφ.1.grows hg, hg.seen hφ.2⟩)
    (within_readBootId HostOp.unnoticed_of_quiet)).conseq (fun _ h => h) (fun _ _ h => h)
    fun _ _ _ => trivial).bind
  intro bootId
  apply obeys_ite
  · exact fun _ => obeys_throw fun _ _ => trivial
  intro _
  apply obeys_of_phase
  rintro φ ⟨hφ, hseen⟩
  apply (obeys_reconcileRuntimeOutcome hφ.locked (Or.inr ⟨hφ.record, hseen⟩) hstage).bind
  intro j'
  apply Obeys.bind (A := fun _ _ => True)
  · apply (obeys_restore root).conseq _ (fun _ _ h => h) fun _ _ h => h
    rintro φ₂ ⟨hlocked, hcleared, hsupervised, hholds, _, htransitions⟩
    refine ⟨⟨hlocked.trans hφ.locked, hcleared.trans hφ.cleared, ?_⟩, hholds, ?_⟩
    · rw [hsupervised, hφ.supervised]
      decide
    · rw [Journal.stage, htransitions]
      exact hstage
  intro _
  exact obeys_anywhere (within_cleanupRuntime HostOp.unnoticed_of_quiet _)

/-- A recovery, of any operation, whatever its calls are answered. -/
theorem obeys_recover (root : PathBuf) (operationId : Option String) :
    invocationProtocol.Obeys (· = .initial) (recover codec root operationId) (fun _ _ => True)
      fun _ _ => True := by
  apply (obeys_enterStateDirectory true).bind
  intro _
  apply (obeys_entered (within_selectJournals HostOp.unnoticed_of_quiet true
    fun id _ => Or.inr (Or.inl ⟨id, rfl⟩))).bind
  intro ids
  match ids with
  | [id] => exact obeys_recoverJournal root id
  | [] => exact obeys_throw fun _ _ => trivial
  | _ :: _ :: _ => exact obeys_throw fun _ _ => trivial

theorem obeys_invocation (codec : Codec) (sysfsRoot stateRoot : PathBuf)
    (invocation : Invocation) :
    invocationProtocol.Follows (invocation.program codec sysfsRoot stateRoot).run .initial
      (Ends (fun _ _ => True) fun _ _ => True) := by
  cases invocation with
  | run request => exact obeys_coordinateRun _ _ rfl
  | recover operationId => exact obeys_recover _ operationId _ rfl

end Snoozer.Benchctl
