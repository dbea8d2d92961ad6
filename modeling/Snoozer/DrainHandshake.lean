import Snoozer.WorkloadSafety
import Snoozer.OutcomeRestored

/-! The end of a supervised run: the coordinator asks for the drain and waits for the file
that proves it, looking at the file and at the guardian one after the other. -/
namespace Snoozer.Benchctl
open Interactive Fallible Protocol Prog

/-- Where the coordinator is between its drain request and the end of `coordinate`. -/
inductive DrainPhase where
  | requesting | looking | watching | checking | timing | pausing | proved | reaping | finished
  | failed
  deriving DecidableEq

/-- One call is possible in each phase. -/
def drainProtocol : Protocol ProcessOp ProcessAns DrainPhase where
  next φ
    | .publish .drain => fun (x : Except BenchError Unit) =>
      if φ = .requesting then some (if x.isOk then .looking else .failed) else none
    | .fileExists .drained => fun (x : Bool) =>
      if φ = .looking then some (if x then .proved else .watching) else none
    | .tryWait .supervisor => fun (x : Except IoError (Option ExitStatus)) =>
      if φ = .watching then some (if x.isOk then .checking else .failed) else none
    | .tryWait .guardian => fun (x : Except IoError (Option ExitStatus)) =>
      if φ = .checking then some (match x with
        | .ok none => .timing
        | _ => .failed)
      else none
    | .elapsed _ => fun (x : Bool) =>
      if φ = .timing then some (if x then .failed else .pausing) else none
    | .sleep => fun _ => if φ = .pausing then some .looking else none
    | .wait .guardian => fun (x : Except IoError ExitStatus) =>
      if φ = .proved then some (match x with
        | .ok status => if status.success then .reaping else .failed
        | .error _ => .failed)
      else none
    | .wait .supervisor => fun (x : Except IoError ExitStatus) =>
      if φ = .reaping then some (match x with
        | .ok status => if status.success then .failed else .finished
        | .error _ => .failed)
      else none
    | _ => fun _ => none

abbrev Draining := Prog ProcessOp ProcessAns (Except BenchError Outcome)

/-- The end of `coordinate`. -/
def reapSupervisor (outcome : Outcome) : Process Outcome := do
  let supervisorStatus ← ioOutcome "reaping workload supervisor" (← ask (.wait .supervisor))
  if supervisorStatus.success then
    throw (.state "workload supervisor escaped guardian drain")
  else
    return outcome

/-- What follows the proof of the drain. -/
def reapChildren (outcome : Outcome) : Process Outcome := do
  let guardianStatus ← ioOutcome "reaping crash guardian" (← ask (.wait .guardian))
  if !guardianStatus.success then
    throw (.state s!"crash guardian failed during drain: {guardianStatus.text}")
  else
    reapSupervisor outcome

/-- The coordinator at the top of its loop. -/
def waitLoop (outcome : Outcome) : Draining := (waitForDrained >>= fun _ => reapChildren outcome).run

namespace Draining

variable (outcome : Outcome) (q : Draining)

def Failed : Prop := ∃ e, q = .ret (.error e)

def Finished : Prop := q = .ret (.ok outcome)

def Reaping : Prop := ∃ f : Except IoError ExitStatus → Draining, q = .call (.wait .supervisor) f ∧
  (∀ e, Failed (f (.error e))) ∧
  ∀ status, if status.success then Failed (f (.ok status)) else Finished outcome (f (.ok status))

def Proved : Prop := ∃ f : Except IoError ExitStatus → Draining, q = .call (.wait .guardian) f ∧
  (∀ e, Failed (f (.error e))) ∧
  ∀ status, if status.success then Reaping outcome (f (.ok status)) else Failed (f (.ok status))

def Pausing : Prop := ∃ f : Unit → Draining, q = .call .sleep f ∧ f () = waitLoop outcome

def Timing : Prop := ∃ f : Bool → Draining,
  q = .call (.elapsed (stopGrace + drainLimit + 1000000000)) f ∧ Failed (f true) ∧
    Pausing outcome (f false)

def Checking : Prop := ∃ f : Except IoError (Option ExitStatus) → Draining,
  q = .call (.tryWait .guardian) f ∧ (∀ e, Failed (f (.error e))) ∧
    (∀ status, Failed (f (.ok (some status)))) ∧ Timing outcome (f (.ok none))

def Watching : Prop := ∃ f : Except IoError (Option ExitStatus) → Draining,
  q = .call (.tryWait .supervisor) f ∧ (∀ e, Failed (f (.error e))) ∧
    ∀ status, Checking outcome (f (.ok status))

def Looking : Prop := ∃ f : Bool → Draining, q = .call (.fileExists .drained) f ∧
  Proved outcome (f true) ∧ Watching outcome (f false)

def Requesting : Prop := ∃ f : Except BenchError Unit → Draining, q = .call (.publish .drain) f ∧
  (∀ e, Failed (f (.error e))) ∧ f (.ok ()) = waitLoop outcome

/-- The program at each phase. -/
def InPhase : DrainPhase → Prop
  | .requesting => Requesting outcome q
  | .looking => q = waitLoop outcome ∨ Looking outcome q
  | .watching => Watching outcome q
  | .checking => Checking outcome q
  | .timing => Timing outcome q
  | .pausing => Pausing outcome q
  | .proved => Proved outcome q
  | .reaping => Reaping outcome q
  | .finished => Finished outcome q
  | .failed => Failed q

end Draining

open Draining

variable {outcome : Outcome}

theorem at_reapSupervisor : Reaping outcome (reapSupervisor outcome).run := by
  refine ⟨_, rfl, fun e => ⟨_, rfl⟩, fun status => ?_⟩
  have hrest : ∀ p : Draining, p = (if status.success then
      throw (.state "workload supervisor escaped guardian drain") else return outcome :
        Process Outcome).run →
      if status.success then Failed p else Draining.Finished outcome p := by
    rintro p rfl
    split
    · exact ⟨_, rfl⟩
    · rfl
  exact hrest _ rfl

theorem at_reapChildren : Proved outcome (reapChildren outcome).run := by
  refine ⟨_, rfl, fun e => ⟨_, rfl⟩, fun status => ?_⟩
  have hrest : ∀ p : Draining, p = (if !status.success then
      throw (.state s!"crash guardian failed during drain: {status.text}")
      else reapSupervisor outcome : Process Outcome).run →
      if status.success then Reaping outcome p else Failed p := by
    rintro p rfl
    cases status.success with
    | true => exact at_reapSupervisor
    | false => exact ⟨_, rfl⟩
  exact hrest _ rfl

theorem at_drainWorkload : Requesting outcome (drainWorkload outcome).run :=
  ⟨_, rfl, fun _ => ⟨_, rfl⟩, rfl⟩

theorem waitLoop_round (outcome : Outcome) :
    ∃ (body : Prog ProcessOp ProcessAns (Option (Except BenchError Unit)))
      (k : Except BenchError Unit → Draining), waitLoop outcome = .loop body k ∧
      Looking outcome (body.bind (again body k)) := by
  refine ⟨_, _, rfl, _, rfl, ?_, ?_⟩
  · exact at_reapChildren
  · refine ⟨_, rfl, fun e => ⟨_, rfl⟩, fun status => ?_⟩
    refine ⟨_, rfl, fun e => ⟨_, rfl⟩, fun status => ⟨_, rfl⟩, ?_⟩
    refine ⟨_, rfl, ⟨_, rfl⟩, ?_⟩
    exact ⟨_, rfl, rfl⟩

/-- A step to the phase that the answer leads to. -/
theorem at_step {q q' : Draining} {φ φ' : DrainPhase} (h : InPhase outcome q φ)
    (hstep : Step drainProtocol.machine (q, φ) (q', φ')) : InPhase outcome q' φ' := by
  cases φ with
  | requesting =>
    obtain ⟨f, rfl, herror, hok⟩ := h
    cases hstep with
    | @call _ _ x _ _ hact =>
      cases hact
      rcases x with e | ⟨⟩
      · exact herror e
      · exact Or.inl hok
    | env he => exact he.elim
  | looking =>
    rcases h with rfl | ⟨f, rfl, hproved, hwatching⟩
    · obtain ⟨body, k, hloop, hround⟩ := waitLoop_round outcome
      rw [hloop] at hstep
      cases hstep with
      | loop => exact Or.inr hround
      | env he => exact he.elim
    · cases hstep with
      | @call _ _ x _ _ hact =>
        cases hact
        cases x with
        | true => exact hproved
        | false => exact hwatching
      | env he => exact he.elim
  | watching =>
    obtain ⟨f, rfl, herror, hok⟩ := h
    cases hstep with
    | @call _ _ x _ _ hact =>
      cases hact
      cases x with
      | error e => exact herror e
      | ok status => exact hok status
    | env he => exact he.elim
  | checking =>
    obtain ⟨f, rfl, herror, hsome, hnone⟩ := h
    cases hstep with
    | @call _ _ x _ _ hact =>
      cases hact
      rcases x with e | _ | status
      · exact herror e
      · exact hnone
      · exact hsome status
    | env he => exact he.elim
  | timing =>
    obtain ⟨f, rfl, hpassed, hpausing⟩ := h
    cases hstep with
    | @call _ _ x _ _ hact =>
      cases hact
      cases x with
      | true => exact hpassed
      | false => exact hpausing
    | env he => exact he.elim
  | pausing =>
    obtain ⟨f, rfl, hloop⟩ := h
    cases hstep with
    | @call _ _ x _ _ hact =>
      cases hact
      exact Or.inl hloop
    | env he => exact he.elim
  | proved =>
    obtain ⟨f, rfl, herror, hok⟩ := h
    cases hstep with
    | @call _ _ x _ _ hact =>
      cases hact
      cases x with
      | error e => exact herror e
      | ok status =>
        have hstatus := hok status
        change InPhase outcome (f (.ok status)) (if status.success then .reaping else .failed)
        split
        · next hsuccess => rwa [if_pos hsuccess] at hstatus
        · next hsuccess => rwa [if_neg hsuccess] at hstatus
    | env he => exact he.elim
  | reaping =>
    obtain ⟨f, rfl, herror, hok⟩ := h
    cases hstep with
    | @call _ _ x _ _ hact =>
      cases hact
      cases x with
      | error e => exact herror e
      | ok status =>
        have hstatus := hok status
        change InPhase outcome (f (.ok status)) (if status.success then .failed else .finished)
        split
        · next hsuccess => rwa [if_pos hsuccess] at hstatus
        · next hsuccess => rwa [if_neg hsuccess] at hstatus
    | env he => exact he.elim
  | finished =>
    rw [show q = .ret (.ok outcome) from h] at hstep
    cases hstep with
    | env he => exact he.elim
  | failed =>
    obtain ⟨e, rfl⟩ := h
    cases hstep with
    | env he => exact he.elim

theorem at_reach {c : Draining × DrainPhase}
    (hr : Reach drainProtocol.machine ((drainWorkload outcome).run, .requesting) c) :
    InPhase outcome c.1 c.2 := by
  induction hr with
  | refl => exact at_drainWorkload
  | tail _ hstep ih => exact at_step ih hstep

/-- The coordinator makes the one call that its phase permits. -/
theorem drain_follows :
    drainProtocol.Follows (drainWorkload outcome).run .requesting fun _ _ => True := by
  intro q φ hr
  refine ⟨?_, fun _ _ => trivial⟩
  have h := at_reach hr
  intro op hop x
  cases φ with
  | looking =>
    rcases h with rfl | ⟨f, rfl, _⟩
    · obtain ⟨body, k, hloop, _⟩ := waitLoop_round outcome
      rw [hloop] at hop
      cases hop
    · cases hop
      rfl
  | finished =>
    rw [show q = .ret (.ok outcome) from h] at hop
    cases hop
  | failed =>
    obtain ⟨e, rfl⟩ := h
    cases hop
  | _ =>
    obtain ⟨f, rfl, _⟩ := h
    cases hop
    rfl

/-- What the guardian has found out or done before it ends with success. -/
structure SignOff where
  gone : Bool
  proved : Bool

def signOffProtocol : Protocol ProcessOp ProcessAns SignOff where
  next φ
    | .hasParent => fun (x : Bool) => some { φ with gone := φ.gone || !x }
    | .publish .drained => fun (x : Except BenchError Unit) =>
      some { φ with proved := φ.proved || x.isOk }
    | .exit success => fun _ =>
      if success = true → φ.gone = true ∨ φ.proved = true then some φ else none
    | _ => fun _ => some φ

/-- A guardian that ends well has proved the drain or has found the group gone. -/
theorem signOff_guardian (request : GuardianRequest) :
    signOffProtocol.Obeys (fun _ => True) (guardian request)
      (fun _ φ => φ.gone = true ∨ φ.proved = true) fun _ _ => True := by
  have hresult : ∀ {α : Type} (r : Except BenchError α) {P : SignOff → Prop},
      signOffProtocol.Obeys P (ofResult r) (fun _ => P) fun _ _ => True :=
    fun r => (obeys_ofResult r).conseq (fun _ h => h) (fun _ _ h => h) fun _ _ _ => trivial
  apply (obeys_ignored fun _ _ => rfl).bind
  intro x
  apply (hresult _).bind
  intro _
  apply (obeys_ignored fun _ _ => rfl).bind
  intro x
  apply (hresult _).bind
  intro _
  apply (obeys_ignored fun _ _ => rfl).bind
  intro x
  apply (hresult _).bind
  intro _
  apply Obeys.bind (A := fun _ _ => True)
  · exact obeys_ite (fun _ => obeys_pure fun _ h => h) fun _ => obeys_throw fun _ _ => trivial
  intro _
  apply Obeys.iterate
  apply (obeys_ignored fun _ _ => rfl).bind
  intro requested
  apply Obeys.bind (A := fun (x : Bool) φ => x = false → φ.gone = true)
  · apply obeys_ask
    rintro φ x _
    refine ⟨_, rfl, ?_⟩
    rintro rfl
    exact Bool.or_true _
  intro hasParent
  apply obeys_ite
  · intro hend
    have hterminate : signOffProtocol.Obeys (fun φ => hasParent = false → φ.gone = true)
        terminateAndDrain (fun _ φ => hasParent = false → φ.gone = true) fun _ _ => True :=
      (obeys_terminateGroup (fun _ _ _ => rfl) (fun _ _ _ => rfl) (fun _ _ => rfl) false
        fun h => nomatch h).conseq (fun _ h => h) (fun _ _ h => h) fun _ _ _ => trivial
    apply hterminate.bind
    intro _
    apply obeys_ite
    · intro _
      apply Obeys.bind (A := fun (x : Except BenchError Unit) φ => x.isOk = true → φ.proved = true)
      · apply obeys_ask
        rintro φ x _
        refine ⟨_, rfl, fun hx => ?_⟩
        change (φ.proved || x.isOk) = true
        rw [hx, Bool.or_true]
      rintro (e | u)
      · exact obeys_throw fun _ _ => trivial
      apply Obeys.bind (A := fun _ φ => φ.proved = true)
      · exact obeys_pure fun _ h => h rfl
      intro _
      exact obeys_pure fun φ hφ => ⟨fun h => (nomatch h), fun _ _ => Or.inr hφ⟩
    · intro hrequested
      have hgone : hasParent = false := by
        cases hasParent with
        | false => rfl
        | true => simp_all
      exact obeys_pure fun φ hφ => ⟨fun h => (nomatch h), fun _ _ => Or.inl (hφ hgone)⟩
  · intro _
    apply (obeys_ignored fun _ _ => rfl).bind
    intro _
    exact obeys_pure fun φ _ => ⟨fun _ => trivial, fun _ h => nomatch h⟩

/-- A guardian that ends with success has proved the drain or lost its coordinator. -/
theorem signOff_process :
    signOffProtocol.Obeys (fun _ => True) guardianProcess (fun _ _ => True) fun _ _ => True := by
  apply Obeys.bind (A := fun (r : Except BenchError Unit) φ =>
    r.isOk = true → φ.gone = true ∨ φ.proved = true)
  · apply Obeys.attempt
    apply (obeys_ignored fun _ _ => rfl).bind
    intro request
    exact (signOff_guardian request).conseq (fun _ h => h) (fun _ _ h _ => h)
      fun _ _ _ h => nomatch h
  intro r
  apply obeys_ask
  intro φ x hφ
  exact ⟨φ, if_pos hφ, trivial⟩

/-- `window` is open from a look for the drained file that finds nothing to the next look
at the guardian. -/
structure DrainWorld where
  world : World
  window : Bool

/-- The coordinator's calls on its children succeed and its limit has not passed. -/
def Steady : (r : Party) → (op : ProcessOp) → ProcessAns op → Prop
  | .invoker .coordinator, .publish .drain, x => x.isOk = true
  | .invoker .coordinator, .tryWait _, x => x.isOk = true
  | .invoker .coordinator, .wait _, x => x.isOk = true
  | .invoker .coordinator, .elapsed _, x => x = false
  | _, _, _ => True

def windowAfter : (r : Party) → (op : ProcessOp) → ProcessAns op → Bool → Bool
  | .invoker .coordinator, .fileExists .drained, x, _ => !x
  | .invoker .coordinator, .tryWait .guardian, _, _ => false
  | _, _, _, window => window

/-- With `guarded` the guardian does not end with success while the window is open. -/
def drainParties (host : Host) (guarded : Bool) :
    Parties Party ProcessOp ProcessAns DrainWorld where
  act r op s x s' := (supervisionParties host).act r op s.world x s'.world ∧
    s'.window = windowAfter r op x s.window ∧ Steady r op x ∧
    (guarded = true → r = .guardian → op = .exit true → s.window = false)
  env s s' := WorldEnv s.world s'.world ∧ s'.window = s.window

abbrev DrainResult : Party → Type
  | .invoker .coordinator => Except BenchError Outcome
  | _ => Except BenchError Unit

/-- The coordinator with an outcome to return, and its children. Nobody else gets the
coordinator's lock. -/
def drainPrograms (codec : Codec) (outcome : Outcome) :
    Pool Party ProcessOp ProcessAns DrainResult
  | .invoker .coordinator => (drainWorkload outcome).run
  | .invoker (.later _) => .ret (.ok ())
  | .supervisor => (supervisorProcess codec).run
  | .guardian => guardianProcess.run

/-- Before the request there is a guardian and nothing is drained. -/
structure DrainStart (w : World) : Prop where
  guardian : w.guardian = .running
  undrained : w.files .drained = false
  leader : ∀ b, w.leader = .zombie b ∨ w.leader = .reaped b → b = false

structure DrainKnown (φ : DrainPhase) (γ : GuardianPhase × SignOff) (s : DrainWorld) : Prop where
  spawned : s.world.guardian ≠ .unspawned
  emptied : γ.1 = .emptied → s.world.groupEmpty
  succeeded : s.world.guardian = .exited true →
    γ.1 = .emptied ∧ (γ.2.gone = true ∨ γ.2.proved = true)
  gone : γ.2.gone = true → s.world.running .coordinator = false
  proved : γ.2.proved = true → s.world.files .drained = true
  leader : ∀ b, s.world.leader = .zombie b ∨ s.world.leader = .reaped b → b = false
  window : φ = .watching ∨ φ = .checking → s.window = true ∧
    (s.world.running .coordinator = true → s.world.guardian ≠ .exited true)
  failed : φ = .failed → s.world.guardian = .exited false

/-- Where the drain begins nothing has to be known. -/
theorem drainKnown_start {w : World} (h : DrainStart w) :
    DrainKnown .requesting (.starting, ⟨false, false⟩) ⟨w, false⟩ where
  spawned := by
    rw [h.guardian]
    simp
  emptied h := nomatch h
  succeeded hg := nomatch h.guardian.symm.trans hg
  gone h := nomatch h
  proved h := nomatch h
  leader := h.leader
  window hφ := by rcases hφ with hφ | hφ <;> exact nomatch hφ
  failed h := nomatch h

theorem World.publish_self (w : World) (file : RuntimeFile) : (w.publish file).files file = true := by
  simp [World.publish]

section Steps

variable {host : Host} {φ φ' : DrainPhase} {γ γ' : GuardianPhase × SignOff} {s s' : DrainWorld}

/-- Steps that leave the guardian and the proof of the drain alone. -/
theorem DrainKnown.frame (h : DrainKnown φ γ s)
    (hguardian : s'.world.guardian = s.world.guardian)
    (hempty : s.world.groupEmpty → s'.world.groupEmpty)
    (hrunning : s'.world.running .coordinator = true → s.world.running .coordinator = true)
    (hfiles : s.world.files .drained = true → s'.world.files .drained = true)
    (hleader : ∀ b, s'.world.leader = .zombie b ∨ s'.world.leader = .reaped b → b = false)
    (hwindow : s'.window = s.window) : DrainKnown φ γ s' := by
  refine ⟨?_, fun hγ => hempty (h.emptied hγ), ?_, ?_, fun hγ => hfiles (h.proved hγ), hleader, ?_,
    ?_⟩
  · rw [hguardian]
    exact h.spawned
  · rw [hguardian]
    exact h.succeeded
  · intro hγ
    have hgone := h.gone hγ
    by_contra hrun
    rw [hrunning (by simpa using hrun)] at hgone
    exact nomatch hgone
  · intro hφ
    obtain ⟨hopen, hnot⟩ := h.window hφ
    rw [hwindow, hguardian]
    exact ⟨hopen, fun hrun => hnot (hrunning hrun)⟩
  · rw [hguardian]
    exact h.failed

theorem DrainKnown.same (h : DrainKnown φ γ s) (hworld : s'.world = s.world)
    (hwindow : s'.window = s.window) : DrainKnown φ γ s' := by
  have hs : s' = s := by
    cases s
    cases s'
    cases hworld
    cases hwindow
    rfl
  rw [hs]
  exact h

/-- The leader is reaped with the status that it has left. -/
theorem DrainKnown.reaped (h : DrainKnown φ γ s) {b : Bool}
    (hleader : s.world.leader = .zombie b ∨ s.world.leader = .reaped b)
    (hworld : s'.world = { s.world with leader := .reaped b }) (hwindow : s'.window = s.window) :
    DrainKnown φ γ s' := by
  have hb := h.leader b hleader
  apply h.frame _ _ _ _ _ hwindow
  all_goals rw [hworld]
  · exact fun hempty => ⟨⟨b, rfl⟩, hempty.2⟩
  · exact fun hrun => hrun
  · exact fun hf => hf
  · rintro b' (hl | hl)
    · exact nomatch hl
    · cases hl
      exact hb

/-- The coordinator goes on to a phase that nothing depends on. -/
theorem DrainKnown.phase (h : DrainKnown φ γ s)
    (hφ : φ' ≠ .watching ∧ φ' ≠ .checking ∧ φ' ≠ .failed) : DrainKnown φ' γ s :=
  ⟨h.spawned, h.emptied, h.succeeded, h.gone, h.proved, h.leader,
    fun hφ' => absurd hφ' (by simp [hφ.1, hφ.2.1]), fun hφ' => absurd hφ' hφ.2.2⟩

/-- A successful guardian has left its proof, as long as the coordinator is there. -/
theorem DrainKnown.drained (h : DrainKnown φ γ s) (hguardian : s.world.guardian = .exited true)
    (hrun : s.world.running .coordinator = true) : s.world.files .drained = true := by
  rcases (h.succeeded hguardian).2 with hgone | hproved
  · exact nomatch hrun.symm.trans (h.gone hgone)
  · exact h.proved hproved

/-- A step of the coordinator keeps what is known of the drain. -/
theorem DrainKnown.coordinatorStep {op : ProcessOp} {x : ProcessAns op} {guarded : Bool}
    (h : DrainKnown φ γ s) (hn : drainProtocol.next φ op x = some φ')
    (hact : (drainParties host guarded).act (.invoker .coordinator) op s x s') :
    DrainKnown φ' γ s' := by
  obtain ⟨⟨hrun, hact⟩, hwindow, hsteady, _⟩ := hact
  cases op with
  | publish file =>
    cases file with
    | drain =>
      simp only [drainProtocol] at hn
      split at hn
      case isFalse => cases hn
      cases hn
      have hok : x.isOk = true := hsteady
      rw [if_pos hok]
      have hpublished : DrainKnown φ γ s' := by
        rcases hact with hw | ⟨hno, _⟩
        · apply h.frame _ _ _ _ _ hwindow
          all_goals rw [hw]
          · rfl
          · exact fun hempty => hempty
          · exact fun hrun => hrun
          · exact fun hf => hf
          · exact h.leader
        · exact nomatch hok.symm.trans hno
      exact hpublished.phase (by simp)
    | _ => cases hn
  | fileExists file =>
    cases file with
    | drained =>
      simp only [drainProtocol] at hn
      split at hn
      case isFalse => cases hn
      cases hn
      obtain ⟨hx, hw⟩ := hact
      have hmoved : ∀ {φ' : DrainPhase}, φ' = .proved ∨ φ' = .watching ∧ x = false →
          DrainKnown φ' γ s' := by
        intro φ' hφ'
        have hwindow : s'.window = !x := hwindow
        refine ⟨hw ▸ h.spawned, hw ▸ h.emptied, hw ▸ h.succeeded, hw ▸ h.gone, hw ▸ h.proved,
          hw ▸ h.leader, ?_, ?_⟩
        · rintro (rfl | rfl)
          · obtain ⟨_, hx'⟩ := hφ'.resolve_left (by simp)
            refine ⟨by rw [hwindow, hx']; rfl, ?_⟩
            -- A guardian that had ended with success would have left the file.
            rw [hw]
            intro hrun hguardian
            rw [h.drained hguardian hrun] at hx
            exact nomatch hx.symm.trans hx'
          · rcases hφ' with hφ' | ⟨hφ', _⟩ <;> exact nomatch hφ'
        · rintro rfl
          rcases hφ' with hφ' | ⟨hφ', _⟩ <;> exact nomatch hφ'
      cases x with
      | true => exact hmoved (Or.inl rfl)
      | false => exact hmoved (Or.inr ⟨rfl, rfl⟩)
    | _ => cases hn
  | tryWait child =>
    cases child with
    | supervisor =>
      simp only [drainProtocol] at hn
      split at hn
      case isFalse => cases hn
      next hφ =>
      subst hφ
      cases hn
      have hok : x.isOk = true := hsteady
      rw [if_pos hok]
      have hsame : DrainKnown .watching γ s' := by
        rcases x with e | _ | status
        · exact h.same hact hwindow
        · exact h.same hact.2 hwindow
        · exact h.reaped hact.1 hact.2 hwindow
      exact ⟨hsame.spawned, hsame.emptied, hsame.succeeded, hsame.gone, hsame.proved, hsame.leader,
        fun _ => hsame.window (Or.inl rfl), fun hφ' => nomatch hφ'⟩
    | guardian =>
      simp only [drainProtocol] at hn
      split at hn
      case isFalse => cases hn
      next hφ =>
      subst hφ
      cases hn
      obtain ⟨hw, hx⟩ := hact
      have hmoved : ∀ {φ' : DrainPhase}, φ' = .timing ∨ φ' = .failed ∧
          s.world.guardian = .exited false → DrainKnown φ' γ s' := by
        intro φ' hφ'
        refine ⟨hw ▸ h.spawned, hw ▸ h.emptied, hw ▸ h.succeeded, hw ▸ h.gone, hw ▸ h.proved,
          hw ▸ h.leader, ?_, ?_⟩
        · rintro (rfl | rfl)
          · rcases hφ' with hφ' | ⟨hφ', _⟩ <;> exact nomatch hφ'
          · rcases hφ' with hφ' | ⟨hφ', _⟩ <;> exact nomatch hφ'
        · rintro rfl
          rw [hw]
          exact (hφ'.resolve_left (by simp)).2
      rcases x with e | _ | status
      · exact nomatch hsteady
      · exact hmoved (Or.inl rfl)
      · refine hmoved (Or.inr ⟨rfl, ?_⟩)
        have hnot := (h.window (Or.inr rfl)).2 hrun
        cases hs : status.success with
        | true => exact absurd (hs ▸ hx) hnot
        | false => exact hs ▸ hx
  | elapsed limit =>
    simp only [drainProtocol] at hn
    split at hn
    case isFalse => cases hn
    cases hn
    rw [show x = false from hsteady]
    exact (h.same hact hwindow).phase (by simp)
  | sleep =>
    simp only [drainProtocol] at hn
    split at hn
    case isFalse => cases hn
    cases hn
    exact (h.same hact hwindow).phase (by simp)
  | wait child =>
    cases child with
    | guardian =>
      simp only [drainProtocol] at hn
      split at hn
      case isFalse => cases hn
      cases hn
      obtain ⟨hw, hx⟩ := hact
      cases x with
      | error e => exact nomatch hsteady
      | ok status =>
        have hsame := h.same hw hwindow
        change DrainKnown (if status.success then .reaping else .failed) γ s'
        split
        · exact hsame.phase (by simp)
        · next hsuccess =>
          have hsuccess : status.success = false := by simpa using hsuccess
          refine ⟨hsame.spawned, hsame.emptied, hsame.succeeded, hsame.gone, hsame.proved,
            hsame.leader, fun hφ' => ?_, fun _ => ?_⟩
          · rcases hφ' with hφ' | hφ' <;> exact nomatch hφ'
          · rw [hw, hx, hsuccess]
    | supervisor =>
      simp only [drainProtocol] at hn
      split at hn
      case isFalse => cases hn
      cases hn
      cases x with
      | error e => exact nomatch hsteady
      | ok status =>
        change DrainKnown (if status.success then .failed else .finished) γ s'
        -- The supervisor never ends with success.
        rw [if_neg (by rw [h.leader _ hact.1]; simp)]
        exact (h.reaped hact.1 hact.2 hwindow).phase (by simp)
  | _ => cases hn

theorem DrainKnown.guardianPhase (h : DrainKnown φ γ s) (hrun : s.world.guardian = .running)
    (hemptied : γ'.1 = .emptied → s.world.groupEmpty)
    (hgone : γ'.2.gone = true → s.world.running .coordinator = false)
    (hproved : γ'.2.proved = true → s.world.files .drained = true) : DrainKnown φ γ' s :=
  ⟨h.spawned, hemptied, fun hg => (nomatch hrun.symm.trans hg), hgone, hproved, h.leader, h.window,
    h.failed⟩

/-- The guardian ends, with success only where the window is shut. -/
theorem DrainKnown.guardianEnded (h : DrainKnown φ γ s) (hrun : s.world.guardian = .running)
    (success : Bool) (hemptied : success = true → γ.1 = .emptied)
    (hsigned : success = true → γ.2.gone = true ∨ γ.2.proved = true)
    (hshut : success = true → s.window = false)
    (hworld : s'.world = s.world.ended success .guardian) (hwindow : s'.window = s.window) :
    DrainKnown φ γ s' := by
  have hguardian : s'.world.guardian = .exited success := by rw [hworld]; rfl
  refine ⟨?_, ?_, ?_, ?_, ?_, ?_, ?_, ?_⟩
  · rw [hguardian]
    simp
  · rw [hworld]
    exact h.emptied
  · rw [hguardian]
    intro hg
    cases hg
    exact ⟨hemptied rfl, hsigned rfl⟩
  · rw [hworld]
    exact h.gone
  · rw [hworld]
    exact h.proved
  · rw [hworld]
    exact h.leader
  · intro hφ
    obtain ⟨hopen, _⟩ := h.window hφ
    rw [hwindow, hguardian]
    refine ⟨hopen, fun _ hg => ?_⟩
    cases hg
    exact nomatch (hshut rfl).symm.trans hopen
  · exact fun hφ => nomatch hrun.symm.trans (h.failed hφ)

/-- A step of the guardian keeps what is known of the drain. -/
theorem DrainKnown.guardianStep {op : ProcessOp} {x : ProcessAns op} (h : DrainKnown φ γ s)
    (hn : (guardianProtocol.both signOffProtocol).next γ op x = some γ')
    (hact : (drainParties host true).act .guardian op s x s') : DrainKnown φ γ' s' := by
  obtain ⟨⟨hrun, hact⟩, hwindow, _, hguarded⟩ := hact
  obtain ⟨γ₁, γ₂⟩ := γ'
  obtain ⟨hn₁, hn₂⟩ := both_next.mp hn
  have hwindow : s'.window = s.window := hwindow
  have hquiet : (γ₁, γ₂) = γ → s'.world = s.world → DrainKnown φ (γ₁, γ₂) s' := by
    intro hγ hworld
    rw [hγ]
    exact h.same hworld hwindow
  -- A new phase in a world that is the same as far as the coordinator can tell.
  have hnew : ∀ {γ₁ : GuardianPhase}, γ₁ ≠ .emptied → s'.world.guardian = s.world.guardian →
      (s.world.groupEmpty → s'.world.groupEmpty) →
      (s'.world.running .coordinator = true → s.world.running .coordinator = true) →
      (s.world.files .drained = true → s'.world.files .drained = true) →
      s'.world.leader = s.world.leader → DrainKnown φ (γ₁, γ.2) s' := by
    intro γ₁ hγ₁ hguardian hempty hrunning hfiles hleader
    have hframe := h.frame hguardian hempty hrunning hfiles (hleader ▸ h.leader) hwindow
    exact hframe.guardianPhase (hguardian.trans hrun) (fun hγ => absurd hγ hγ₁) hframe.gone
      hframe.proved
  cases op with
  | lockActive =>
    cases hn₂
    simp only [guardianProtocol] at hn₁
    split at hn₁
    case isFalse => cases hn₁
    next hstarting =>
    cases hn₁
    cases x with
    | error e => exact hquiet rfl hact
    | ok u =>
      obtain ⟨_, hworld⟩ := hact
      change DrainKnown φ (.locked, γ.2) s'
      apply hnew (by simp)
      all_goals rw [hworld]
      exacts [fun hempty => hempty, fun hrun => hrun, fun hf => hf]
  | publish file =>
    cases file with
    | go => cases hn₁
    | drain => cases hn₁
    | ready =>
      cases hn₂
      simp only [guardianProtocol] at hn₁
      split at hn₁
      case isFalse => cases hn₁
      cases hn₁
      rcases hact with hworld | ⟨_, hworld⟩
      · apply hnew (by simp)
        all_goals rw [hworld]
        exacts [rfl, fun hempty => hempty, fun hrun => hrun, fun hf => hf, rfl]
      · apply hnew (by simp)
        all_goals rw [hworld]
        exacts [fun hempty => hempty, fun hrun => hrun, fun hf => hf]
    | drained =>
      simp only [guardianProtocol] at hn₁
      split at hn₁
      case isFalse => cases hn₁
      cases hn₁
      cases hn₂
      rcases hact with hworld | ⟨hno, hworld⟩
      · have hframe : DrainKnown φ γ s' := by
          refine h.frame ?_ ?_ ?_ (fun _ => ?_) ?_ hwindow
          all_goals rw [hworld]
          exacts [rfl, fun hempty => hempty, fun hrun => hrun, World.publish_self .., h.leader]
        refine hframe.guardianPhase ?_ hframe.emptied hframe.gone fun _ => ?_
        · rw [hworld]
          exact hrun
        · rw [hworld]
          exact World.publish_self ..
      · refine (h.same hworld hwindow).guardianPhase (hworld ▸ hrun)
          (h.same hworld hwindow).emptied (h.same hworld hwindow).gone fun hproved => ?_
        have hproved : (γ.2.proved || x.isOk) = true := hproved
        rw [hno, Bool.or_false] at hproved
        rw [hworld]
        exact h.proved hproved
  | killpg signal =>
    cases hn₂
    obtain ⟨hworld, hx⟩ := hact
    cases signal with
    | some signal => cases hn₁; exact hquiet rfl hworld
    | none =>
      rcases x with (_ | text) | u
      · simp only [guardianProtocol] at hn₁
        split at hn₁
        case isFalse => cases hn₁
        cases hn₁
        have hsame := h.same hworld hwindow
        exact hsame.guardianPhase (hworld ▸ hrun) (fun _ => hworld ▸ hx) hsame.gone hsame.proved
      · cases hn₁; exact hquiet rfl hworld
      · cases hn₁; exact hquiet rfl hworld
  | exit success =>
    simp only [guardianProtocol] at hn₁
    split at hn₁
    case isFalse => cases hn₁
    next hemptied =>
    simp only [signOffProtocol] at hn₂
    split at hn₂
    case isFalse => cases hn₂
    next hsigned =>
    cases hn₁
    cases hn₂
    refine h.guardianEnded hrun success hemptied hsigned (fun hsuccess => ?_) hact hwindow
    subst hsuccess
    exact hguarded rfl rfl rfl
  | hasParent =>
    cases hn₁
    cases hn₂
    obtain ⟨hx, hworld⟩ := hact
    have hsame := h.same hworld hwindow
    refine hsame.guardianPhase (hworld ▸ hrun) hsame.emptied (fun hgone => ?_) hsame.proved
    have hgone : (γ.2.gone || !x) = true := hgone
    rcases Bool.or_eq_true_iff.mp hgone with hgone | hno
    · exact hsame.gone hgone
    · rw [hworld, ← hx]
      simpa using hno
  | guardianArguments => cases hn₁; cases hn₂; exact hquiet rfl hact.2
  | openActiveLock => cases hn₁; cases hn₂; exact hquiet rfl hact
  | fileExists file => cases hn₁; cases hn₂; exact hquiet rfl hact.2
  | elapsed limit => cases hn₁; cases hn₂; exact hquiet rfl hact
  | sleep => cases hn₁; cases hn₂; exact hquiet rfl hact
  | _ => cases hn₁

/-- The group loses its leader, never with success, or its size changes. -/
theorem DrainKnown.groupChanged (h : DrainKnown φ γ s) (hnonempty : ¬ s.world.groupEmpty)
    {leader : LeaderState} {members : ℕ} {executed : Bool}
    (hleader : ∀ b, leader = .zombie b ∨ leader = .reaped b → b = false)
    (hworld : s'.world = { s.world with
      leader := leader
      members := members
      executed := executed }) (hwindow : s'.window = s.window) : DrainKnown φ γ s' := by
  refine h.frame ?_ (fun hempty => absurd hempty hnonempty) ?_ ?_ ?_ hwindow
  all_goals rw [hworld]
  exacts [fun hrun => hrun, fun hf => hf, hleader]

/-- A step of the supervisor keeps what is known of the drain. -/
theorem DrainKnown.supervisorStep {op : ProcessOp} {x : ProcessAns op} {guarded : Bool}
    {ψ ψ' : SupervisorPhase} (h : DrainKnown φ γ s)
    (hn : supervisorProtocol.next ψ op x = some ψ')
    (hact : (drainParties host guarded).act .supervisor op s x s') : DrainKnown φ γ s' := by
  obtain ⟨⟨hrun, hact⟩, hwindow, _, _⟩ := hact
  have hwindow : s'.window = s.window := hwindow
  have hnonempty := World.not_groupEmpty_of_alive hrun
  cases op with
  | spawnWorkload command =>
    cases x with
    | error e => exact h.same hact hwindow
    | ok u => exact h.groupChanged hnonempty h.leader hact hwindow
  | host op =>
    simp only [supervisorProtocol] at hn
    split at hn
    case isFalse => cases hn
    next hop =>
    have heffect := hostAct_effect hact
    have hfiles : s'.world.files = s.world.files := by
      apply heffect.kept
      rintro id rfl
      cases hop
    refine h.frame ?_ ?_ ?_ ?_ ?_ hwindow
    · rw [heffect.same]
    · rw [heffect.same]
      exact fun hempty => hempty
    · rw [heffect.same]
      exact fun hrun => hrun
    · rw [hfiles]
      exact fun hf => hf
    · rw [heffect.same]
      exact h.leader
  | exit success =>
    simp only [supervisorProtocol] at hn
    split at hn
    · cases hn
    · next hsuccess =>
      refine h.groupChanged hnonempty ?_ hact hwindow
      rintro b (hb | hb)
      · cases hb
        simpa using hsuccess
      · cases hb
  | supervisorArguments => exact h.same hact.2 hwindow
  | fileExists file => exact h.same hact.2 hwindow
  | hasParent => exact h.same hact.2 hwindow
  | elapsed limit => exact h.same hact hwindow
  | sleep => exact h.same hact hwindow
  | productionProof id build => exact h.same hact hwindow
  | openExecutable path => exact h.same hact hwindow
  | descriptorIsFile => exact h.same hact hwindow
  | readDescriptor => exact h.same hact hwindow
  | rewindDescriptor => exact h.same hact hwindow
  | inheritDescriptor => exact h.same hact hwindow
  | waitWorkload => exact h.same hact hwindow
  | writeStatus id status => exact h.same hact hwindow
  | _ => cases hn

/-- The environment keeps what is known of the drain. -/
theorem DrainKnown.env (h : DrainKnown φ γ s) (henv : WorldEnv s.world s'.world)
    (hwindow : s'.window = s.window) : DrainKnown φ γ s' := by
  obtain ⟨w, b⟩ := s
  obtain ⟨w', b'⟩ := s'
  cases henv with
  | killed r hr =>
    cases r with
    | invoker i =>
      refine h.frame rfl (fun hempty => hempty) (fun hrun => ?_) (fun hf => hf) h.leader hwindow
      by_cases hi : Invoker.coordinator = i
      · rw [hi]
        exact hr
      · exact (Function.update_of_ne hi false w.running).symm.trans hrun
    | supervisor =>
      refine h.groupChanged (World.not_groupEmpty_of_alive hr) ?_ rfl hwindow
      rintro b (hb | hb)
      · cases hb
        rfl
      · exact nomatch hb
    | guardian =>
      exact h.guardianEnded hr false (fun hs => (nomatch hs)) (fun hs => (nomatch hs))
        (fun hs => (nomatch hs)) rfl hwindow
  | adopted _ hzombie => exact h.reaped (Or.inl hzombie) rfl hwindow
  | forked hmember =>
    refine h.groupChanged ?_ h.leader rfl hwindow
    rintro ⟨⟨b, hb⟩, hzero⟩
    rcases hmember with halive | hpos
    · exact nomatch halive.symm.trans hb
    · exact absurd hpos (by rw [hzero]; simp)
  | memberExited hmember =>
    refine h.groupChanged ?_ h.leader rfl hwindow
    intro hempty
    rw [hempty.2] at hmember
    exact nomatch hmember
  | otherLocked _ =>
    exact h.frame rfl (fun hempty => hempty) (fun hrun => hrun) (fun hf => hf) h.leader hwindow
  | otherReleased _ =>
    exact h.frame rfl (fun hempty => hempty) (fun hrun => hrun) (fun hf => hf) h.leader hwindow

end Steps

abbrev DrainPartyPhase : Party → Type
  | .invoker .coordinator => DrainPhase
  | .invoker (.later _) => Unit
  | .supervisor => SupervisorPhase
  | .guardian => GuardianPhase × SignOff

def drainPartyProtocol : (r : Party) → Protocol ProcessOp ProcessAns (DrainPartyPhase r)
  | .invoker .coordinator => drainProtocol
  | .invoker (.later _) => ⟨fun _ _ _ => none⟩
  | .supervisor => supervisorProtocol
  | .guardian => guardianProtocol.both signOffProtocol

def drainStartPhase : (r : Party) → DrainPartyPhase r
  | .invoker .coordinator => .requesting
  | .invoker (.later _) => ()
  | .supervisor => .starting
  | .guardian => (.starting, ⟨false, false⟩)

/-- Every interleaving of the coordinator's wait with its children. -/
abbrev DrainRun (host : Host) (codec : Codec) (guarded : Bool) (outcome : Outcome) (w : World)
    (c : Pool Party ProcessOp ProcessAns DrainResult × DrainWorld) : Prop :=
  PoolReach (drainParties host guarded) (drainPrograms codec outcome, ⟨w, false⟩) c

variable {host : Host} {codec : Codec} {w : World}
  {c : Pool Party ProcessOp ProcessAns DrainResult × DrainWorld}

/-- What is known holds at every point of a drain. -/
theorem drainKnown_reach (hstart : DrainStart w) (hr : DrainRun host codec true outcome w c) :
    ∃ φ γ, DrainKnown φ γ c.2 ∧ InPhase outcome (c.1 (.invoker .coordinator)) φ := by
  have hprograms : ∀ r, (drainPartyProtocol r).Follows (drainPrograms codec outcome r)
      (drainStartPhase r) fun _ _ => True := by
    rintro ((_ | n) | _ | _)
    · exact drain_follows
    · exact follows_ret trivial
    · exact follows_mono (supervisor_process .starting rfl) fun _ _ _ => trivial
    · exact follows_mono (Follows.both (guardian_process .starting rfl)
        (signOff_process ⟨false, false⟩ trivial)) fun _ _ _ => trivial
  have hstep : ∀ r (φ : (r : Party) → DrainPartyPhase r) op x φ' s s',
      DrainKnown (φ (.invoker .coordinator)) (φ .guardian) s →
      (drainPartyProtocol r).next (φ r) op x = some φ' → (drainParties host true).act r op s x s' →
      DrainKnown (Function.update φ r φ' (.invoker .coordinator))
        (Function.update φ r φ' .guardian) s' := by
    rintro ((_ | n) | _ | _) φ op x φ' s s' h hn hact
    · exact h.coordinatorStep hn hact
    · cases hn
    · exact h.supervisorStep hn hact
    · exact h.guardianStep hn hact
  obtain ⟨φ, hknown, hreach⟩ := hr.tracked hprograms (drainKnown_start hstart) hstep
    fun φ s s' h he => h.env he.1 he.2
  exact ⟨_, _, hknown, at_reach (hreach (.invoker .coordinator))⟩

/-- All that the coordinator waits for has happened. -/
structure DrainWorld.Done (s : DrainWorld) : Prop where
  guardian : s.world.guardian = .exited true
  drained : s.world.files .drained = true
  leader : s.world.leader = .reaped false
  running : s.world.running .coordinator = true

section Alone

variable {s : DrainWorld} {q : Draining} {n : ℕ}

/-- Nobody but the coordinator. -/
abbrev alone (host : Host) : Machine ProcessOp ProcessAns DrainWorld :=
  (drainParties host true).machine (.invoker .coordinator)

theorem alone_closed (host : Host) (s s' : DrainWorld) : ¬ (alone host).env s s' := fun h => h

theorem alone_act (op : ProcessOp) (x : ProcessAns op) {w' : World} (hdone : s.Done)
    (hact : childAct host (.invoker .coordinator) op s.world x w')
    (hsteady : Steady (.invoker .coordinator) op x) :
    ∃ x s', (alone host).act op s x s' :=
  ⟨x, ⟨w', windowAfter (.invoker .coordinator) op x s.window⟩, ⟨hdone.running, hact⟩, rfl, hsteady,
    fun _ h => nomatch h⟩

/-- A coordinator that only has to reap the guardian returns the outcome. -/
theorem settles_reaping (hdone : s.Done) (h : Reaping outcome q) :
    Settles (alone host) (· = .ok outcome) (n + 1) q s := by
  obtain ⟨f, rfl, _, hok⟩ := h
  have hleader : s.world.leader = .zombie (exitStatus false).success ∨
      s.world.leader = .reaped (exitStatus false).success := Or.inr hdone.leader
  apply settles_call (alone_closed host)
    (alone_act (.wait .supervisor) (.ok (exitStatus false)) hdone ⟨hleader, rfl⟩ rfl)
  rintro (e | status) s' ⟨⟨_, hact⟩, _, hsteady, _⟩
  · exact nomatch hsteady
  · have hstatus := hok status
    have hsuccess : status.success = false := by
      rcases hact.1 with hl | hl
      · exact nomatch hdone.leader.symm.trans hl
      · exact (LeaderState.reaped.inj (hdone.leader.symm.trans hl)).symm
    rw [hsuccess, if_neg (by simp)] at hstatus
    rw [show f (.ok status) = .ret (.ok outcome) from hstatus]
    exact settles_ret rfl

/-- So does one that has seen the proof. -/
theorem settles_proved (hdone : s.Done) (h : Proved outcome q) :
    Settles (alone host) (· = .ok outcome) (n + 2) q s := by
  obtain ⟨f, rfl, _, hok⟩ := h
  apply settles_call (alone_closed host)
    (alone_act (.wait .guardian) (.ok (exitStatus true)) hdone ⟨rfl, hdone.guardian⟩ rfl)
  rintro (e | status) s' ⟨⟨_, hworld, hx⟩, _, hsteady, _⟩
  · exact nomatch hsteady
  · have hstatus := hok status
    have hsuccess : status.success = true :=
      (GuardianState.exited.inj (hdone.guardian.symm.trans hx)).symm
    rw [if_pos hsuccess] at hstatus
    have hdone' : s'.Done := by
      constructor
      all_goals rw [hworld]
      exacts [hdone.guardian, hdone.drained, hdone.leader, hdone.running]
    exact settles_reaping hdone' hstatus

/-- So does one that is about to look for it. -/
theorem settles_looking (hdone : s.Done) (h : Looking outcome q) :
    Settles (alone host) (· = .ok outcome) (n + 3) q s := by
  obtain ⟨f, rfl, hproved, _⟩ := h
  apply settles_call (alone_closed host)
    (alone_act (.fileExists .drained) true hdone ⟨hdone.drained.symm, rfl⟩ trivial)
  rintro x s' ⟨⟨_, hx, hworld⟩, _⟩
  have hx : x = true := hx.trans hdone.drained
  subst hx
  have hdone' : s'.Done := by
    constructor
    all_goals rw [hworld]
    exacts [hdone.guardian, hdone.drained, hdone.leader, hdone.running]
  exact settles_proved hdone' hproved

theorem settles_waitLoop (hdone : s.Done) :
    Settles (alone host) (· = .ok outcome) (n + 4) (waitLoop outcome) s := by
  obtain ⟨body, k, hloop, hround⟩ := waitLoop_round outcome
  rw [hloop]
  exact settles_loop (alone_closed host) (settles_looking hdone hround)

theorem settles_pausing (hdone : s.Done) (h : Pausing outcome q) :
    Settles (alone host) (· = .ok outcome) (n + 5) q s := by
  obtain ⟨f, rfl, hloop⟩ := h
  apply settles_call (alone_closed host) (alone_act .sleep () hdone rfl trivial)
  rintro x s' ⟨⟨_, hworld⟩, _⟩
  have hdone' : s'.Done := by
    constructor
    all_goals rw [show s'.world = s.world from hworld]
    exacts [hdone.guardian, hdone.drained, hdone.leader, hdone.running]
  rw [show f x = waitLoop outcome from hloop]
  exact settles_waitLoop hdone'

theorem settles_timing (hdone : s.Done) (h : Timing outcome q) :
    Settles (alone host) (· = .ok outcome) (n + 6) q s := by
  obtain ⟨f, rfl, _, hpausing⟩ := h
  apply settles_call (alone_closed host) (alone_act (.elapsed _) false hdone rfl rfl)
  rintro x s' ⟨⟨_, hworld⟩, _, hsteady, _⟩
  have hdone' : s'.Done := by
    constructor
    all_goals rw [show s'.world = s.world from hworld]
    exacts [hdone.guardian, hdone.drained, hdone.leader, hdone.running]
  rw [show x = false from hsteady]
  exact settles_pausing hdone' hpausing

/-- So does one that still has to request the drain. -/
theorem settles_requesting (hdone : s.Done) (h : Requesting outcome q) :
    Settles (alone host) (· = .ok outcome) (n + 5) q s := by
  obtain ⟨f, rfl, _, hok⟩ := h
  apply settles_call (alone_closed host)
    (alone_act (.publish .drain) (.ok ()) hdone (Or.inl rfl) rfl)
  rintro (e | ⟨⟩) s' ⟨⟨_, hact⟩, _, hsteady, _⟩
  · exact nomatch hsteady
  · have hworld : s'.world = s.world.publish .drain :=
      hact.resolve_right fun hno => nomatch hno.1
    have hdone' : s'.Done := by
      constructor
      all_goals rw [hworld]
      exacts [hdone.guardian, hdone.drained, hdone.leader, hdone.running]
    rw [hok]
    exact settles_waitLoop hdone'

end Alone

/-- In every run whose guardian does not end with success between the coordinator's look for
the drained file and its look at the guardian, a guardian that has ended with success has
left the file, `coordinate` does not fail, and the coordinator returns its outcome within six
more steps of its own. From that answer every `coordinate_run`, after any earlier invocations,
stores the drain, restores the host and reports the outcome. -/
theorem drain_success_reported (hstart : DrainStart w)
    (hr : DrainRun host codec true outcome w c) (hsuccess : c.2.world.guardian = .exited true)
    (hrun : c.2.world.running .coordinator = true) :
    c.2.world.files .drained = true ∧ (∀ e, c.1 (.invoker .coordinator) ≠ .ret (.error e)) ∧
    Settles (alone host) (· = .ok outcome) 6 (c.1 (.invoker .coordinator)) c.2 ∧
    ∀ (sysfsRoot stateRoot : PathBuf) (contents : Sysfs) (s₀ s : HostState) (run : RunRequest)
      (request : CoordinateRequest) (rest : AfterCoordinate Unit),
      Session codec host sysfsRoot stateRoot (.initial contents) s₀ →
      Reach (host.machine true false)
        (((Invocation.run run).program codec sysfsRoot stateRoot).run, s₀)
        (.call (.coordinate request) rest, s) →
      RestoresHost codec host sysfsRoot request.operationId outcome (rest (.ok outcome))
        (s.enter request.operationId) := by
  obtain ⟨φ, γ, hknown, hphase⟩ := drainKnown_reach hstart hr
  have hdrained := hknown.drained hsuccess hrun
  have hfailed : φ ≠ .failed := fun hφ => nomatch hsuccess.symm.trans (hknown.failed hφ)
  have hwindow : φ ≠ .watching ∧ φ ≠ .checking :=
    ⟨fun hφ => (hknown.window (Or.inl hφ)).2 hrun hsuccess,
      fun hφ => (hknown.window (Or.inr hφ)).2 hrun hsuccess⟩
  have hdone : c.2.Done := by
    refine ⟨hsuccess, hdrained, ?_, hrun⟩
    obtain ⟨⟨b, hb⟩, _⟩ := hknown.emptied (hknown.succeeded hsuccess).1
    rw [hb, hknown.leader b (Or.inr hb)]
  have hsettles : Settles (alone host) (· = .ok outcome) 6 (c.1 (.invoker .coordinator)) c.2 := by
    cases φ with
    | requesting => exact settles_requesting hdone hphase
    | looking =>
      rcases hphase with hloop | hlooking
      · rw [hloop]
        exact settles_waitLoop hdone
      · exact settles_looking hdone hlooking
    | watching => exact absurd rfl hwindow.1
    | checking => exact absurd rfl hwindow.2
    | timing => exact settles_timing hdone hphase
    | pausing => exact settles_pausing hdone hphase
    | proved => exact settles_proved hdone hphase
    | reaping => exact settles_reaping hdone hphase
    | finished =>
      rw [show c.1 (.invoker .coordinator) = .ret (.ok outcome) from hphase]
      exact settles_ret rfl
    | failed => exact absurd rfl hfailed
  refine ⟨hdrained, fun e he => ?_, hsettles, fun _ _ _ _ _ _ _ _ hsession hcalled =>
    calling_restoresHost hsession hcalled outcome⟩
  rw [he] at hsettles
  rcases hsettles with ⟨a, ha, hok⟩ | ⟨⟨_, hstep⟩, _⟩
  · cases ha
    cases hok
  · cases hstep with
    | env he => exact he

/-- Served as before, with the window kept. -/
def serveDrain (host : Host) (id : String) (guarded : Bool) (r : Party) :
    Server ProcessOp ProcessAns DrainWorld := fun op s =>
  if guarded ∧ r = .guardian ∧ op = .exit true ∧ s.window then none
  else (serveParty host id (fun _ => false) r op s.world).map fun answer =>
    (answer.1, ⟨answer.2, windowAfter r op answer.1 s.window⟩)

/-- A served call of a party is steady. -/
theorem serveParty_steady {host : Host} {id : String} {r : Party} {op : ProcessOp} {w w' : World}
    {x : ProcessAns op} (h : serveParty host id (fun _ => false) r op w = some (x, w')) :
    Steady r op x := by
  unfold serveParty at h
  split at h
  case isFalse => cases h
  rcases r with (_ | n) | _ | _
  · cases op with
    | publish file =>
      cases h
      cases file <;> first | rfl | trivial
    | tryWait child =>
      cases child <;> simp only [serveChild] at h <;> split at h <;> cases h <;> rfl
    | wait child =>
      cases child <;> simp only [serveChild] at h <;> split at h <;> cases h <;> rfl
    | elapsed limit => cases h; rfl
    | _ => trivial
  · cases op <;> trivial
  · cases op <;> trivial
  · cases op <;> trivial

/-- A served call is one that the parties of a drain allow. -/
theorem serveDrain_act {host : Host} {id : String} {guarded : Bool} (r : Party) (op : ProcessOp)
    (s : DrainWorld) (x : ProcessAns op) (s' : DrainWorld) (hs : s.world.host.Only id)
    (h : serveDrain host id guarded r op s = some (x, s')) :
    (drainParties host guarded).act r op s x s' ∧ s'.world.host.Only id := by
  unfold serveDrain at h
  split at h
  · cases h
  · next hallowed =>
    obtain ⟨⟨x', w'⟩, hserve, hpair⟩ := Option.map_eq_some_iff.mp h
    cases hpair
    obtain ⟨hact, honly⟩ := serveParty_act r op s.world x' w' hs hserve
    refine ⟨⟨hact, rfl, serveParty_steady hserve, fun hguarded hr hop => ?_⟩, honly⟩
    by_contra hopen
    exact hallowed ⟨hguarded, hr, hop, by simpa using hopen⟩

/-- The supervisor has ended and a guardian watches over what is left of the group. -/
def sampleDrainStart : World :=
  { World.initial (.initial sampleSysfs) with
    guardian := .running
    guardianRequest := some ⟨1, 2⟩
    leader := .zombie false }

theorem sampleDrainStart_start : DrainStart sampleDrainStart where
  guardian := rfl
  undrained := rfl
  leader b h := by
    rcases h with h | h
    · cases h
      rfl
    · exact nomatch h

def sampleDrain (guarded : Bool) (schedule : List (Party × ℕ)) :
    Pool Party ProcessOp ProcessAns DrainResult × DrainWorld :=
  Pool.play (serveDrain sampleHost "op" guarded) schedule
    (drainPrograms (sampleCodec fun _ => []) .success, ⟨sampleDrainStart, false⟩)

theorem sampleDrain_reach (guarded : Bool) (schedule : List (Party × ℕ)) :
    DrainRun sampleHost (sampleCodec fun _ => []) guarded .success sampleDrainStart
      (sampleDrain guarded schedule) :=
  (Pool.play_reach (I := fun s : DrainWorld => s.world.host.Only "op") serveDrain_act schedule _ _
    fun _ _ => rfl).1

set_option maxRecDepth 4000 in
/-- The guardian ends while the coordinator sleeps, and the run that has called the supervisor
restores the host. -/
theorem drain_success_reported_sample :
    ∃ c, DrainRun sampleHost (sampleCodec fun _ => []) true .success sampleDrainStart c ∧
      c.2.world.guardian = .exited true ∧
      Settles (alone sampleHost) (· = .ok .success) 6 (c.1 (.invoker .coordinator)) c.2 ∧
      ∃ request rest s, Reach (sampleHost.machine true false)
        ((coordinateRun (sampleCodec fun _ => []) sampleRequest).run, .initial sampleSysfs)
        (.call (.coordinate request) rest, s) ∧
        ∃ s', Reach (sampleHost.machine false false) (rest (.ok .success),
          s.enter request.operationId) (.ret (.ok ()), s') ∧
          ∃ before, s.before request.operationId = some before ∧
            ∀ p, value s'.sysfs p = value before p := by
  have hr := sampleDrain_reach true [(.invoker .coordinator, 6), (.guardian, 30)]
  have hsuccess : (sampleDrain true
      [(.invoker .coordinator, 6), (.guardian, 30)]).2.world.guardian = .exited true := by
    decide +kernel
  have hrun : (sampleDrain true
      [(.invoker .coordinator, 6), (.guardian, 30)]).2.world.running .coordinator = true := by
    decide +kernel
  obtain ⟨_, _, hsettles, hrestores⟩ :=
    drain_success_reported sampleDrainStart_start hr hsuccess hrun
  have hentered : (sampleRun (sampleCodec fun _ => [])).map (fun result => result.2.entered) =
      some ["op"] := by decide +kernel
  obtain ⟨⟨r, t⟩, hrun', ht⟩ := Option.map_eq_some_iff.mp hentered
  obtain ⟨request, rest, s, hcalled⟩ := reach_coordinate (reach_sampleRun hrun').1
    (by rw [show t.entered = ["op"] from ht]; exact List.cons_ne_nil _ _)
  have hrestored := hrestores sampleRoot sampleRequest.stateRoot sampleSysfs _ s sampleRequest
    request rest .refl hcalled
  obtain ⟨r', s', hends⟩ := hrestored.ends
  obtain ⟨rfl, _, hback⟩ := hrestored.restored r' s' hends
  exact ⟨_, hr, hsuccess, hsettles, request, rest, s, hcalled, s', hends, hback⟩

/-- The error that a program has returned. -/
def returnedError : Draining → Option BenchError
  | .ret (.error e) => some e
  | _ => none

set_option maxRecDepth 4000 in
/-- The guardian publishes its proof and ends with success right after the coordinator has
looked for the file: the coordinator then finds it gone and fails. -/
theorem drain_success_lost :
    ¬ ∀ (host : Host) (codec : Codec) (outcome : Outcome) (w : World)
      (c : Pool Party ProcessOp ProcessAns DrainResult × DrainWorld), DrainStart w →
      DrainRun host codec false outcome w c → c.2.world.guardian = .exited true →
      c.2.world.files .drained = true → c.2.world.running .coordinator = true →
      ∀ e, c.1 (.invoker .coordinator) ≠ .ret (.error e) := by
  intro h
  have hr := sampleDrain_reach false
    [(.invoker .coordinator, 4), (.guardian, 30), (.invoker .coordinator, 1)]
  generalize hc : sampleDrain false
    [(.invoker .coordinator, 4), (.guardian, 30), (.invoker .coordinator, 1)] = c at hr
  have hsuccess : c.2.world.guardian = .exited true := by
    rw [← hc]
    decide +kernel
  have hdrained : c.2.world.files .drained = true := by
    rw [← hc]
    decide +kernel
  have hrun : c.2.world.running .coordinator = true := by
    rw [← hc]
    decide +kernel
  have herror : returnedError (c.1 (.invoker .coordinator)) =
      some (.state "crash guardian exited without drain proof: exit status: 0") := by
    rw [← hc]
    decide +kernel
  have hreturned : ∃ e, c.1 (.invoker .coordinator) = .ret (.error e) := by
    generalize c.1 (.invoker .coordinator) = q at herror
    unfold returnedError at herror
    split at herror
    · exact ⟨_, rfl⟩
    · cases herror
  obtain ⟨e, he⟩ := hreturned
  exact h _ _ _ _ _ sampleDrainStart_start hr hsuccess hdrained hrun e he

end Snoozer.Benchctl
