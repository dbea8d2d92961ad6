import Snoozer.SupervisionSteps

/-! `require_inactive` as a gate: until it has returned `Ok`, an invocation only prepares the
state directory, takes its lock and tries `active.lock`. While the guardian of an authorised
workload runs, nobody is past it. -/
namespace Snoozer.Benchctl
open Interactive Fallible Protocol InvocationPhase

/-- Calls of `enter_state_directory` before `require_inactive`. -/
def HostOp.entering : HostOp → Bool
  | .createStateRoot => true
  | .secureStateRoot _ => true
  | .stateRootMetadata => true
  | .actor => true
  | .lockFor _ => true
  | _ => false

/-- The same with the calls of `require_inactive` and the end of the process. -/
def ProcessOp.entering : ProcessOp → Bool
  | .host op => op.entering
  | .openActiveLock => true
  | .tryLockActive => true
  | .elapsed _ => true
  | .sleep => true
  | .exit _ => true
  | _ => false

/-- The phase says whether the gate was passed. -/
def entryGate : Protocol HostOp HostAns Bool where
  next passed
    | .requireInactive => fun (x : Except BenchError Unit) => some (passed || x.isOk)
    | op => fun _ => if passed || op.entering then some passed else none

def processGate : Protocol ProcessOp ProcessAns Bool where
  next passed
    | .tryLockActive => fun (x : Except TryLockError Unit) => some (passed || x.isOk)
    | op => fun _ => if passed || op.entering then some passed else none

section Gates

variable {passed passed' : Bool}

theorem entryGate_next {op : HostOp} {x : HostAns op} (hop : op ≠ .requireInactive) :
    entryGate.next passed op x = if passed || op.entering then some passed else none := by
  cases op <;> first
    | exact absurd rfl hop
    | rfl

theorem processGate_next {op : ProcessOp} {x : ProcessAns op} (hop : op ≠ .tryLockActive) :
    processGate.next passed op x = if passed || op.entering then some passed else none := by
  cases op <;> first
    | exact absurd rfl hop
    | rfl

theorem entryGate_passed (op : HostOp) (x : HostAns op) : entryGate.next true op x = some true := by
  by_cases hop : op = .requireInactive
  · subst hop
    rfl
  · exact entryGate_next hop

theorem processGate_passed (op : ProcessOp) (x : ProcessAns op) :
    processGate.next true op x = some true := by
  by_cases hop : op = .tryLockActive
  · subst hop
    rfl
  · exact processGate_next hop

theorem entryGate_ignores {op : HostOp} (hop : op.entering = true) : entryGate.Ignores op := by
  have hinactive : op ≠ .requireInactive := by
    rintro rfl
    cases hop
  intro passed x
  rw [entryGate_next hinactive, hop, Bool.or_true, if_pos rfl]

/-- Every call has some answer. -/
theorem processAns_nonempty (op : ProcessOp) : Nonempty (ProcessAns op) := by
  have hhost : ∀ op : HostOp, Nonempty (HostAns op) := by
    intro op
    cases op <;> first
      | exact ⟨.error ⟨""⟩⟩
      | exact ⟨.error (.state "")⟩
      | exact ⟨true⟩
      | exact ⟨""⟩
      | exact ⟨(0 : ℕ)⟩
      | exact ⟨⟨0, 0⟩⟩
  cases op with
  | host op => exact hhost op
  | supervisorArguments => exact ⟨⟨⟨true, []⟩, ⟨true, []⟩, "", 0, 0, 0, [], false⟩⟩
  | guardianArguments => exact ⟨⟨0, 0⟩⟩
  | killpg signal => exact ⟨.error .esrch⟩
  | tryLockActive => exact ⟨.error .wouldBlock⟩
  | _ => first
    | exact ⟨.error ⟨""⟩⟩
    | exact ⟨.error (.state "")⟩
    | exact ⟨true⟩
    | exact ⟨()⟩
    | exact ⟨(0 : ℕ)⟩

/-- A call that is permitted before the gate was passed. -/
theorem processGate_entering {op : ProcessOp} (h : processGate.Allows (some op) false) :
    op.entering = true := by
  by_cases hop : op = .tryLockActive
  · subst hop
    rfl
  obtain ⟨x⟩ := processAns_nonempty op
  have hsome := h op rfl x
  rw [processGate_next hop] at hsome
  by_contra hno
  rw [Bool.false_or, if_neg hno] at hsome
  cases hsome

end Gates

section Invocations

variable {codec : Codec} {α : Type}

/-- Behind the gate everything is permitted. -/
theorem entry_behind (p : Bench α) :
    entryGate.Obeys (· = true) p (fun _ => (· = true)) fun _ _ => True := by
  have hmakes : Fallible.Makes (fun _ => True) p := Prog.makes_true _
  apply (obeys_makes (P := (· = true)) ?_ hmakes).conseq (fun _ h => h) (fun _ _ h => h)
    fun _ _ _ => trivial
  rintro op _ x _ rfl
  exact ⟨true, entryGate_passed op x, rfl⟩

theorem entry_ofExcept (r : Except BenchError α) :
    entryGate.Obeys (· = false) (ofExcept r) (fun _ => (· = false)) fun _ _ => True := by
  cases r with
  | ok a => exact obeys_pure fun _ h => h
  | error e => exact obeys_throw fun _ _ => trivial

/-- Securing the state directory does not pass the gate. -/
theorem entry_secureStateDirectory :
    entryGate.Obeys (· = false) secureStateDirectory (fun _ => (· = false)) fun _ _ => True := by
  apply (obeys_ignored (entryGate_ignores rfl)).bind
  intro x
  apply (entry_ofExcept _).bind
  intro _
  apply (obeys_ignored (entryGate_ignores rfl)).bind
  intro x
  apply (entry_ofExcept _).bind
  intro metadata
  apply obeys_ite
  · exact fun _ => obeys_throw fun _ _ => trivial
  intro _
  apply (obeys_ignored (entryGate_ignores rfl)).bind
  intro current
  exact obeys_ite (fun _ => obeys_throw fun _ _ => trivial) fun _ => obeys_pure fun _ h => h

/-- The state directory is entered through the gate. -/
theorem entry_enterStateDirectory (wait : Bool) :
    entryGate.Obeys (· = false) (enterStateDirectory wait) (fun _ => (· = true))
      fun _ _ => True := by
  apply (obeys_ignored (entryGate_ignores rfl)).bind
  intro x
  apply (entry_ofExcept _).bind
  intro _
  apply entry_secureStateDirectory.bind
  intro _
  apply (obeys_ignored (entryGate_ignores rfl)).bind
  intro x
  apply (entry_ofExcept _).bind
  intro _
  -- What `require_inactive` answers decides whether the gate was passed.
  apply Obeys.bind (A := fun (x : Except BenchError Unit) passed => x.isOk = true → passed = true)
  · apply obeys_ask
    rintro _ x rfl
    exact ⟨_, rfl, fun hx => (Bool.false_or _).trans hx⟩
  rintro (e | u)
  · exact obeys_throw fun _ _ => trivial
  · exact obeys_pure fun _ h => h rfl

/-- Every invocation passes the gate before anything that it guards. -/
theorem entry_invocation (sysfsRoot stateRoot : PathBuf) (invocation : Invocation) :
    entryGate.Obeys (· = false) (invocation.program codec sysfsRoot stateRoot) (fun _ _ => True)
      fun _ _ => True := by
  suffices h : entryGate.Obeys (· = false) (invocation.program codec sysfsRoot stateRoot)
      (fun _ => (· = true)) fun _ _ => True from
    h.conseq (fun _ h => h) (fun _ _ _ => trivial) fun _ _ _ => trivial
  cases invocation with
  | recover operationId =>
    apply (entry_enterStateDirectory true).bind
    exact fun _ => entry_behind _
  | run request =>
    have hcpus : entryGate.Obeys (· = false) (normalizeCpus request.cpus) (fun _ => (· = false))
        fun _ _ => True :=
      obeys_ite (fun _ => obeys_throw fun _ _ => trivial) fun _ =>
        obeys_ite (fun _ => obeys_throw fun _ _ => trivial) fun _ => obeys_pure fun _ h => h
    apply hcpus.bind
    intro cpus
    apply Obeys.bind (A := fun _ => (· = true))
    · apply (entry_enterStateDirectory false).bind
      exact fun _ => entry_behind _
    · exact fun _ => entry_behind _

/-- `require_inactive` returns only through the gate. -/
theorem gate_requireInactive :
    processGate.Obeys (· = false) requireInactive (fun _ => (· = true)) fun _ => (· = false) := by
  apply (obeys_ignored fun passed _ => if_pos (Bool.or_true passed)).bind
  intro x
  apply (obeys_ofResult _).bind
  intro _
  apply Obeys.iterate
  apply Obeys.bind (A := fun (x : Except TryLockError Unit) passed => passed = x.isOk)
  · apply obeys_ask
    rintro _ x rfl
    exact ⟨_, rfl, Bool.false_or _⟩
  rintro (e | u)
  · cases e with
    | wouldBlock =>
      -- Somebody holds the lock: give up or try again.
      apply (obeys_ignored fun passed _ => if_pos (Bool.or_true passed)).bind
      intro elapsed
      apply obeys_ite
      · exact fun _ => obeys_throw fun _ h => h
      intro _
      apply (obeys_ignored fun passed _ => if_pos (Bool.or_true passed)).bind
      exact fun _ => obeys_pure fun _ h => ⟨fun _ => h, fun _ h => nomatch h⟩
    | error source => exact obeys_throw fun _ h => h
  · exact obeys_pure fun _ h => ⟨fun h => (nomatch h), fun _ _ => h⟩

/-- The program in the place of a call passes the gate when the call does. -/
theorem gate_expandCall {passed : Bool} {op : HostOp}
    (hallows : entryGate.Allows (some op) passed) :
    processGate.Follows (expandCall op) passed fun x passed' =>
      entryGate.next passed op x = some passed' := by
  -- Behind the gate nothing is to be shown of the calls.
  by_cases hpassed : passed = true
  · subst hpassed
    apply follows_mono (follows_makes (P := (· = true)) ?_ (Prog.makes_true _) rfl)
    · rintro x _ rfl
      exact entryGate_passed op x
    · rintro op' _ x _ rfl
      exact ⟨true, processGate_passed op' x, rfl⟩
  rw [Bool.not_eq_true] at hpassed
  subst hpassed
  by_cases hinactive : op = .requireInactive
  · subst hinactive
    apply follows_mono (gate_requireInactive false rfl)
    rintro (e | u) _ rfl
    · rfl
    · rfl
  have hcoordinate : ∀ request, op ≠ .coordinate request := by
    rintro request rfl
    exact nomatch hallows _ rfl (.error (.state ""))
  -- Any other call that is permitted now is made as it is.
  rw [expandCall_eq hcoordinate hinactive]
  apply follows_call
  intro x
  have hsome := hallows op rfl x
  rw [entryGate_next hinactive, Bool.false_or] at hsome
  by_cases hop : op.entering = true
  · exact ⟨false, if_pos hop, follows_ret (entryGate_ignores hop false x)⟩
  · rw [if_neg hop] at hsome
    cases hsome

/-- Every process of an invocation stands before the gate until it has passed it. -/
theorem gate_invocation (codec : Codec) (sysfsRoot stateRoot : PathBuf) (invocation : Invocation) :
    processGate.Obeys (· = false)
      (process (asProcess (invocation.program codec sysfsRoot stateRoot))) (fun _ _ => True)
      fun _ _ => True := by
  apply Obeys.bind (A := fun _ _ => True)
  · apply Obeys.attempt
    rintro _ rfl
    apply follows_mono (Follows.handle (Q := fun passed passed' => passed' = passed) ?_
      (invocation_loopFree codec sysfsRoot stateRoot invocation)
      (entry_invocation sysfsRoot stateRoot invocation false rfl) rfl)
    · rintro (e | u) _ _
      · trivial
      · trivial
    · rintro passed _ op rfl hallows
      apply follows_mono (gate_expandCall hallows)
      exact fun x passed' hn => ⟨passed', hn, rfl⟩
  intro r
  apply obeys_ask
  intro passed x _
  exact ⟨passed, if_pos (Bool.or_true passed), trivial⟩

end Invocations

abbrev GatePhase : Party → Type
  | .invoker _ => Bool
  | .supervisor => Unit
  | .guardian => Unit

def gateProtocol : (r : Party) → Protocol ProcessOp ProcessAns (GatePhase r)
  | .invoker _ => processGate
  | .supervisor => ⟨fun _ _ _ => some ()⟩
  | .guardian => ⟨fun _ _ _ => some ()⟩

def gateStart : (r : Party) → GatePhase r
  | .invoker _ => false
  | .supervisor => ()
  | .guardian => ()

theorem gate_party {codec : Codec} {sysfsRoot stateRoot : PathBuf} {request : RunRequest}
    {later : ℕ → Invocation} (r : Party) :
    (gateProtocol r).Follows (supervisionPrograms codec sysfsRoot stateRoot request later r)
      (gateStart r) fun _ _ => True := by
  cases r with
  | invoker i =>
    apply follows_mono (gate_invocation codec sysfsRoot stateRoot (invocationOf request later i)
      false rfl)
    exact fun _ _ _ => trivial
  | supervisor => exact follows_makes (fun _ _ _ _ h => ⟨(), rfl, h⟩) (Prog.makes_true _) trivial
  | guardian => exact follows_makes (fun _ _ _ _ h => ⟨(), rfl, h⟩) (Prog.makes_true _) trivial

/-- Nothing that an invocation does makes it forget that it was cleared. -/
theorem process_cleared {ψ ψ' : ProcessPhase} {op : ProcessOp} {x : ProcessAns op}
    (hn : processProtocol.next ψ op x = some ψ') (h : ψ.run.cleared = true) :
    ψ'.run.cleared = true := by
  cases op with
  | host op =>
    simp only [processProtocol] at hn
    split at hn
    case isFalse => cases hn
    next hmay =>
    obtain ⟨φ, hnext, rfl⟩ := Option.map_eq_some_iff.mp hn
    have hinactive : op ≠ .requireInactive := by
      rintro rfl
      exact hmay
    exact (cleared_next hnext hinactive).trans h
  | tryLockActive =>
    simp only [processProtocol] at hn
    split at hn
    · cases hn
      split
      · rfl
      · exact h
    · cases hn
  | spawnSupervisor request =>
    simp only [processProtocol] at hn
    split at hn
    · cases hn
      split
      · exact h
      · exact h
    · cases hn
  | spawnGuardian request =>
    simp only [processProtocol] at hn
    split at hn
    · cases hn
      exact h
    · cases hn
  | fileExists file =>
    cases file with
    | ready =>
      cases hn
      split
      · unfold ProcessPhase.sawReady
        split
        · exact h
        · exact h
      · exact h
    | _ => cases hn; exact h
  | publish file =>
    cases file with
    | go =>
      simp only [processProtocol] at hn
      split at hn
      · cases hn
        exact h
      · cases hn
    | drain => cases hn; exact h
    | _ => cases hn
  | wait child =>
    cases child with
    | guardian =>
      cases hn
      split
      · split
        · exact h
        · exact h
      · exact h
    | supervisor => cases hn; exact h
  | lockActive => cases hn
  | spawnWorkload command => cases hn
  | supervisorArguments => cases hn
  | guardianArguments => cases hn
  | _ => cases hn; exact h

/-- An invocation that passed the gate has got `active.lock`, as far as its phase says. -/
theorem cleared_of_passed {ψ ψ' : ProcessPhase} {op : ProcessOp} {x : ProcessAns op}
    {passed passed' : Bool} (hn : processProtocol.next ψ op x = some ψ')
    (hgate : processGate.next passed op x = some passed')
    (h : passed = true → ψ.run.cleared = true) (hpassed : passed' = true) :
    ψ'.run.cleared = true := by
  by_cases hop : op = .tryLockActive
  · subst hop
    simp only [processProtocol] at hn
    split at hn
    case isFalse => cases hn
    cases hn
    cases x with
    | ok u => rfl
    | error e =>
      cases hgate
      exact h ((Bool.or_false _).symm.trans hpassed)
  rw [processGate_next hop] at hgate
  split at hgate
  case isFalse => cases hgate
  cases hgate
  exact process_cleared hn (h hpassed)

section Reach

variable {host : Host} {codec : Codec} {sysfsRoot stateRoot : PathBuf} {request : RunRequest}
  {later : ℕ → Invocation} {s : HostState}
  {c : Pool Party ProcessOp ProcessAns (fun _ => Except BenchError Unit) × World}

/-- Where the invocations are, as far as the invariant and the gate are concerned. -/
def GateKnown (φ : (r : Party) → PartyPhase r × GatePhase r) (w : World) : Prop :=
  Known (.of fun r => (φ r).1) w ∧ ∀ n, (φ (.invoker (.later n))).2 = true →
    (φ (.invoker (.later n))).1.run.cleared = true

/-- A step of any party keeps what is known of the gate. -/
theorem GateKnown.step {r : Party} {φ : (r : Party) → PartyPhase r × GatePhase r} {op : ProcessOp}
    {x : ProcessAns op} {φ' : PartyPhase r × GatePhase r} {w w' : World} (h : GateKnown φ w)
    (hn : ((partyProtocol r).both (gateProtocol r)).next (φ r) op x = some φ')
    (hact : (supervisionParties host).act r op w x w') :
    GateKnown (Function.update φ r φ') w' := by
  obtain ⟨hn₁, hn₂⟩ := both_next.mp hn
  have hfst : (fun r' => (Function.update φ r φ' r').1) =
      Function.update (fun r' => (φ r').1) r φ'.1 := by
    funext r'
    exact Function.apply_update (fun _ φ => φ.1) φ r φ' r'
  refine ⟨?_, fun k hk => ?_⟩
  · rw [hfst]
    exact h.1.step hn₁ hact
  · by_cases hr : Party.invoker (.later k) = r
    · subst hr
      rw [Function.update_self] at hk ⊢
      exact cleared_of_passed hn₁ hn₂ (h.2 k) hk
    · rw [Function.update_of_ne hr] at hk ⊢
      exact h.2 k hk

/-- While the guardian of an authorised workload runs, every other invocation that runs is at
a call of the gate or before it. -/
theorem entering_reach (hr : PoolReach (supervisionParties host)
      (supervisionPrograms codec sysfsRoot stateRoot request later, World.initial s) c) {n : ℕ}
    (hauthorised : c.2.authorised = true) (hguardian : c.2.guardian = .running)
    (hrun : c.2.running (.later n) = true) {op : ProcessOp}
    (hhead : (c.1 (.invoker (.later n))).head = some op) : op.entering = true := by
  have hprograms : ∀ r, ((partyProtocol r).both (gateProtocol r)).Follows
      (supervisionPrograms codec sysfsRoot stateRoot request later r) (startPhase r, gateStart r)
      fun _ _ => True := fun r =>
    follows_mono (Follows.both (party_obeys r) (gate_party r)) fun _ _ _ => trivial
  have hstart : GateKnown (fun r => (startPhase r, gateStart r)) (World.initial s) :=
    ⟨known_initial s, fun _ h => nomatch h⟩
  obtain ⟨φ, ⟨hknown, hcleared⟩, hallows⟩ := hr.phases hprograms hstart
    (fun _ _ _ _ _ _ _ h hn hact => h.step hn hact) fun _ _ _ h he => ⟨h.1.env he, h.2⟩
  -- An invocation that has passed would share `active.lock` with the running guardian.
  have hpassed : (φ (.invoker (.later n))).2 = false := by
    by_contra hno
    rw [Bool.not_eq_false] at hno
    exact hknown.excluded n (hcleared n hno) hrun hauthorised hguardian
  have hgate : processGate.Allows (some op) (φ (.invoker (.later n))).2 := by
    intro op' hop x
    cases hop
    obtain ⟨φ', hn⟩ := Option.isSome_iff_exists.mp ((hallows (.invoker (.later n))).1 op hhead x)
    exact Option.isSome_iff_exists.mpr ⟨φ'.2, (both_next.mp hn).2⟩
  rw [hpassed] at hgate
  exact processGate_entering hgate

end Reach

end Snoozer.Benchctl
