import Snoozer.CoordinatorProtocol

/-! What holds in every state of a supervised run and the invocations around it: what an
invocation under the lock knows of the journals stays true, the guardian's word on the
group is right, and the workload is authorised only after everything it needs is done and
recorded. -/
namespace Snoozer.Benchctl
open Interactive Fallible Protocol InvocationPhase

structure Phases where
  invoker : Invoker → ProcessPhase
  supervisor : SupervisorPhase
  guardian : GuardianPhase

abbrev PartyPhase : Party → Type
  | .invoker _ => ProcessPhase
  | .supervisor => SupervisorPhase
  | .guardian => GuardianPhase

noncomputable def partyProtocol : (r : Party) → Protocol ProcessOp ProcessAns (PartyPhase r)
  | .invoker _ => processProtocol
  | .supervisor => supervisorProtocol
  | .guardian => guardianProtocol

def startPhase : (r : Party) → PartyPhase r
  | .invoker _ => .initial
  | .supervisor => .starting
  | .guardian => .starting

namespace Phases

def of (φ : (r : Party) → PartyPhase r) : Phases :=
  ⟨fun i => φ (.invoker i), φ .supervisor, φ .guardian⟩

def coordinator (p : Phases) : ProcessPhase := p.invoker .coordinator

def setInvoker (p : Phases) (i : Invoker) (ψ : ProcessPhase) : Phases :=
  { p with invoker := Function.update p.invoker i ψ }

variable (φ : (r : Party) → PartyPhase r)

/-- What the parties know follows the phase of one invoker. -/
theorem of_update_invoker (i : Invoker) (ψ : ProcessPhase) :
    of (Function.update φ (.invoker i) ψ) = (of φ).setInvoker i ψ := by
  have hinvoker : (fun k => Function.update φ (.invoker i) ψ (.invoker k)) =
      Function.update (fun k => (φ (.invoker k) : ProcessPhase)) i ψ := by
    funext k
    by_cases hk : k = i
    · subst hk
      rw [Function.update_self, Function.update_self]
    · have hparty : Party.invoker k ≠ .invoker i := fun h => hk (Party.invoker.inj h)
      rw [Function.update_of_ne hk, Function.update_of_ne hparty]
  have hsupervisor : Party.supervisor ≠ .invoker i := by simp
  have hguardian : Party.guardian ≠ .invoker i := by simp
  unfold of setInvoker
  rw [hinvoker, Function.update_of_ne hsupervisor, Function.update_of_ne hguardian]

@[simp] theorem setInvoker_supervisor (p : Phases) (i : Invoker) (ψ : ProcessPhase) :
    (p.setInvoker i ψ).supervisor = p.supervisor := rfl

@[simp] theorem setInvoker_guardian (p : Phases) (i : Invoker) (ψ : ProcessPhase) :
    (p.setInvoker i ψ).guardian = p.guardian := rfl

@[simp] theorem setInvoker_self (p : Phases) (i : Invoker) (ψ : ProcessPhase) :
    (p.setInvoker i ψ).invoker i = ψ := Function.update_self ..

@[simp] theorem setInvoker_of_ne (p : Phases) {i k : Invoker} (h : k ≠ i) (ψ : ProcessPhase) :
    (p.setInvoker i ψ).invoker k = p.invoker k := Function.update_of_ne h ..

@[simp] theorem setInvoker_coordinator (p : Phases) (ψ : ProcessPhase) :
    (p.setInvoker .coordinator ψ).coordinator = ψ := setInvoker_self p .coordinator ψ

@[simp] theorem setInvoker_later (p : Phases) (n : ℕ) (ψ : ProcessPhase) :
    (p.setInvoker (.later n) ψ).coordinator = p.coordinator := setInvoker_of_ne p (by simp) ψ

@[simp] theorem setInvoker_eq_self (p : Phases) (i : Invoker) :
    p.setInvoker i (p.invoker i) = p := by
  unfold setInvoker
  rw [Function.update_eq_self]

end Phases

/-- What a call on the host changes of the world. -/
structure HostEffect (r : Party) (op : HostOp) (x : HostAns op) (w w' : World) : Prop where
  same : w' = { w with host := w'.host, files := w'.files, lock := w'.lock, tree := w'.tree }
  files : ∀ f, w'.files f = true → w.files f = true
  kept : (∀ id, op ≠ .removeRuntime id) → w'.files = w.files
  tree : w'.tree =
    if r = .invoker .coordinator then w.tree ++ (treeEvent ⟨op, x⟩).toList else w.tree
  lock : (∀ wait, op ≠ .lockFor wait) → w'.lock = w.lock
  taken : w.lock ≠ none → w'.lock = w.lock
  journals : (∀ id j, op ≠ .writeJournal id j) → w'.host.journals = w.host.journals

/-- What a call on the host does to the world of the supervision. -/
theorem hostAct_effect {host : Host} {r : Party} {op : HostOp} {w w' : World} {x : HostAns op}
    (h : hostAct host r op w x w') : HostEffect r op x w w' := by
  -- Calls that `Host.act` answers.
  have hhost : (∃ s, host.act true op w.host x s ∧ w' = { w with
      host := s
      tree := if r = .invoker .coordinator then w.tree ++ (treeEvent ⟨op, x⟩).toList
        else w.tree }) → (∀ request, op ≠ .coordinate request) → HostEffect r op x w w' := by
    rintro ⟨s, hact, rfl⟩ hcoordinate
    exact ⟨rfl, fun _ hf => hf, fun _ => rfl, rfl, fun _ => rfl, fun _ => rfl,
      fun hstore => (act_keeps_journals hact hstore hcoordinate).1⟩
  cases op with
  | lockFor wait =>
    have htree : w.tree = if r = .invoker .coordinator then
        w.tree ++ (treeEvent ⟨.lockFor wait, x⟩).toList else w.tree := by
      split
      · exact (List.append_nil _).symm
      · rfl
    cases x with
    | ok u =>
      obtain ⟨hfree, i, _, rfl⟩ := h
      exact ⟨rfl, fun _ hf => hf, fun _ => rfl, htree, fun hop => absurd rfl (hop wait),
        fun htaken => absurd hfree htaken, fun _ => rfl⟩
    | error e =>
      have h : w' = w := h
      rw [h]
      exact ⟨rfl, fun _ hf => hf, fun _ => rfl, htree, fun _ => rfl, fun _ => rfl, fun _ => rfl⟩
  | removeRuntime id =>
    obtain ⟨files, hfiles, _, _, rfl⟩ := h
    refine ⟨rfl, hfiles, fun hop => absurd rfl (hop id), ?_, fun _ => rfl, fun _ => rfl,
      fun _ => rfl⟩
    split
    · exact (List.append_nil _).symm
    · rfl
  | coordinate request => exact h.elim
  | requireInactive => exact h.elim
  | _ => exact hhost h (fun _ => HostOp.noConfusion)

/-- What an invocation knows under the lock. -/
structure InvokerKnown (i : Invoker) (φ : InvocationPhase) (w : World) : Prop where
  cleared : φ.cleared = true → φ.locked = true
  held : φ.locked = true → w.running i = true → w.lock = some i
  unlocked : φ.locked = false → φ.seen = [] ∧ φ.absent = [] ∧ φ.record = .untouched
  holds : w.running i = true → ∀ id j, φ.Holds id j → w.host.journals id = some j
  absent : w.running i = true → φ.record = .untouched → ∀ id ∈ φ.absent, w.host.journals id = none

section Invoker

variable {i : Invoker} {φ φ' : InvocationPhase} {w w' : World} {op : HostOp} {x : HostAns op}

theorem InvokerKnown.locked_of_holds (h : InvokerKnown i φ w) {id : String} {j : Journal}
    (hholds : φ.Holds id j) : φ.locked = true := by
  by_contra hlocked
  obtain ⟨hseen, _, hrecord⟩ := h.unlocked (by simpa using hlocked)
  rcases hholds with hstored | ⟨_, hmem⟩
  · rw [hrecord] at hstored
    exact nomatch hstored
  · rw [hseen] at hmem
    exact nomatch hmem

theorem InvokerKnown.locked_of_absent (h : InvokerKnown i φ w) {id : String}
    (habsent : id ∈ φ.absent) : φ.locked = true := by
  by_contra hlocked
  rw [(h.unlocked (by simpa using hlocked)).2.1] at habsent
  exact nomatch habsent

/-- A step of another process, which cannot store a journal or take the lock while this
one has it. -/
theorem InvokerKnown.frame (h : InvokerKnown i φ w)
    (hrunning : w'.running i = true → w.running i = true)
    (hlock : w.lock = some i → w'.lock = some i)
    (hjournals : w.lock = some i → w'.host.journals = w.host.journals) : InvokerKnown i φ w' where
  cleared := h.cleared
  held hlocked hrun := hlock (h.held hlocked (hrunning hrun))
  unlocked := h.unlocked
  holds hrun id j hholds := by
    rw [hjournals (h.held (h.locked_of_holds hholds) (hrunning hrun))]
    exact h.holds (hrunning hrun) id j hholds
  absent hrun hrecord id hid := by
    rw [hjournals (h.held (h.locked_of_absent hid) (hrunning hrun))]
    exact h.absent (hrunning hrun) hrecord id hid

theorem invokerKnown_initial (host : HostState) : InvokerKnown i .initial (.initial host) where
  cleared h := nomatch h
  held h := nomatch h
  unlocked _ := ⟨rfl, rfl, rfl⟩
  holds _ id j hholds := by
    rcases hholds with h | ⟨_, h⟩
    · exact nomatch h
    · exact nomatch h
  absent _ _ _ h := nomatch h

/-- What was learned stays true while no journal is stored; only the lock may be new. -/
theorem InvokerKnown.learn (h : InvokerKnown i φ w) (heffect : HostEffect (.invoker i) op x w w')
    (hstore : ∀ id j, op ≠ .writeJournal id j) (hlock : ∀ wait, op ≠ .lockFor wait)
    (hgrows : φ.Grows φ') (hseen : φ.locked = false → φ'.seen = φ.seen ∧ φ'.absent = φ.absent)
    (hholds : w.running i = true → ∀ id j, (id, j) ∈ φ'.seen →
      (id, j) ∈ φ.seen ∨ w.host.journals id = some j)
    (habsent : w.running i = true → ∀ id ∈ φ'.absent, id ∈ φ.absent ∨ w.host.journals id = none) :
    InvokerKnown i φ' w' := by
  have hrunning : w'.running = w.running := by rw [heffect.same]
  refine ⟨?_, ?_, ?_, ?_, ?_⟩
  · rw [hgrows.cleared, hgrows.locked]
    exact h.cleared
  · rw [hgrows.locked, hrunning, heffect.lock hlock]
    exact h.held
  · intro hlocked
    rw [hgrows.locked] at hlocked
    rw [(hseen hlocked).1, (hseen hlocked).2, hgrows.record]
    exact h.unlocked hlocked
  · intro hrun id j hj
    rw [heffect.journals hstore]
    rw [hrunning] at hrun
    rcases hj with hj | ⟨hrecord, hmem⟩
    · exact h.holds hrun id j (Or.inl (hgrows.record ▸ hj))
    · rcases hholds hrun id j hmem with hmem | hmem
      · exact h.holds hrun id j (Or.inr ⟨hgrows.record ▸ hrecord, hmem⟩)
      · exact hmem
  · intro hrun hrecord id hid
    rw [heffect.journals hstore]
    rw [hrunning] at hrun
    rcases habsent hrun id hid with hid | hid
    · exact h.absent hrun (hgrows.record ▸ hrecord) id hid
    · exact hid

theorem InvokerKnown.quiet (h : InvokerKnown i φ w) (heffect : HostEffect (.invoker i) op x w w')
    (hstore : ∀ id j, op ≠ .writeJournal id j) (hlock : ∀ wait, op ≠ .lockFor wait)
    (hgrows : φ.Grows φ') (hseen : φ'.seen = φ.seen) (habsent : φ'.absent = φ.absent) :
    InvokerKnown i φ' w' := by
  apply h.learn heffect hstore hlock hgrows (fun _ => ⟨hseen, habsent⟩)
  · rw [hseen]
    exact fun _ _ _ hmem => Or.inl hmem
  · rw [habsent]
    exact fun _ _ hmem => Or.inl hmem

/-- A process's own calls on the host. -/
theorem InvokerKnown.host {host : Host} (h : InvokerKnown i φ w)
    (hn : invocationProtocol.next φ op x = some φ') (hact : hostAct host (.invoker i) op w x w') :
    InvokerKnown i φ' w' := by
  have heffect := hostAct_effect hact
  cases op with
  | lockFor wait =>
    cases hn
    cases x with
    | error e =>
      have hact : w' = w := hact
      have hsame : { φ with locked := φ.locked || false } = φ := by rw [Bool.or_false]
      rw [hact]
      change InvokerKnown i { φ with locked := φ.locked || false } w
      rw [hsame]
      exact h
    | ok u =>
      obtain ⟨_, k, hk, rfl⟩ := hact
      cases hk
      have hlocked : (φ.locked || (Except.ok u : Except BenchError Unit).isOk) = true :=
        Bool.or_true _
      exact ⟨fun _ => hlocked, fun _ _ => rfl, fun hno => absurd (hno.symm.trans hlocked) (by simp),
        h.holds, h.absent⟩
  | writeJournal id j =>
    simp only [invocationProtocol] at hn
    split at hn
    · next hmay =>
      cases hn
      obtain ⟨s, hstore, rfl⟩ := hact
      have hlocked : φ.locked = true := by cases hmay <;> assumption
      refine ⟨h.cleared, h.held, fun hno => absurd (hno.symm.trans hlocked) (by simp), ?_, ?_⟩
      · rintro _ id' j' (hrecord | ⟨hrecord, _⟩)
        · cases x with
          | ok u =>
            cases hrecord
            have hstore : s = w.host.store id j := hstore
            rw [hstore]
            exact HostState.store_self ..
          | error e => cases hrecord
        · cases x <;> cases hrecord
      · intro _ hrecord
        cases x <;> cases hrecord
    · cases hn
  | write path contents =>
    simp only [invocationProtocol] at hn
    split at hn
    · cases hn
      exact h.quiet heffect (by simp) (by simp) (.learned φ _) rfl rfl
    · cases hn
  | journalExists id =>
    cases hn
    obtain ⟨s, ⟨hx, rfl⟩, rfl⟩ := hact
    split
    · next hcond =>
      obtain ⟨hlocked, hno⟩ := Bool.and_eq_true_iff.mp hcond
      have hgrows : φ.Grows { φ with absent := id :: φ.absent } :=
        ⟨rfl, rfl, rfl, rfl, fun _ h => h, List.subset_cons_self .., fun _ h => h,
          List.prefix_rfl⟩
      apply h.learn heffect (by simp) (by simp) hgrows
        (fun hunlocked => absurd (hunlocked.symm.trans hlocked) (by simp))
        (fun _ _ _ hmem => Or.inl hmem)
      intro _ id' hid'
      rcases List.mem_cons.mp hid' with rfl | hid'
      · have hx : false = (w.host.journals id').isSome := by
          rw [← hx]
          simpa using hno
        exact Or.inr (Option.isNone_iff_eq_none.mp (by simpa using hx.symm))
      · exact Or.inl hid'
    · exact h.quiet heffect (by simp) (by simp) (.refl φ) rfl rfl
  | readJournal id =>
    cases hn
    split
    · next j hlocked =>
      obtain ⟨s, ⟨hx, rfl⟩, rfl⟩ := hact
      have hgrows : φ.Grows { φ with seen := (id, j) :: φ.seen } :=
        ⟨rfl, rfl, rfl, rfl, List.subset_cons_self .., fun _ h => h, fun _ h => h,
          List.prefix_rfl⟩
      apply h.learn heffect (by simp) (by simp) hgrows
        (fun hunlocked => absurd (hunlocked.symm.trans hlocked) (by simp))
      · intro _ id' j' hmem
        rcases List.mem_cons.mp hmem with heq | hmem
        · cases heq
          exact Or.inr hx
        · exact Or.inl hmem
      · exact fun _ _ hmem => Or.inl hmem
    · exact h.quiet heffect (by simp) (by simp) (.refl φ) rfl rfl
  | readOutcome id =>
    obtain ⟨φ'', hn', hgrows⟩ := invocation_quiet (.readOutcome id) φ x rfl
    cases hn.symm.trans hn'
    cases hn
    apply h.quiet heffect (by simp) (by simp) hgrows
    · split <;> rfl
    · split <;> rfl
  | readStatus id =>
    obtain ⟨φ'', hn', hgrows⟩ := invocation_quiet (.readStatus id) φ x rfl
    cases hn.symm.trans hn'
    cases hn
    apply h.quiet heffect (by simp) (by simp) hgrows
    · split <;> rfl
    · split <;> rfl
  | readToString path =>
    obtain ⟨φ'', hn', hgrows⟩ := invocation_quiet (.readToString path) φ x rfl
    cases hn.symm.trans hn'
    cases hn
    apply h.quiet heffect (by simp) (by simp) hgrows
    · split <;> rfl
    · split <;> rfl
  | coordinate request => exact hact.elim
  | requireInactive => exact hact.elim
  | _ =>
    cases hn
    exact h.quiet heffect (by simp) (by simp) (.refl φ) rfl rfl

end Invoker

/-- The guardian's word on the group, which the coordinator trusts. -/
structure GroupKnown (p : Phases) (w : World) : Prop where
  published : ∀ f, w.files f = true → w.published f = true
  unspawned : w.guardian = .unspawned → p.guardian = .starting
  acquired : p.guardian ≠ .starting →
    w.acquired = true ∧ (w.guardian = .running → w.active = some .guardian)
  ready : w.published .ready = true → p.guardian.Watching
  emptied : p.guardian = .emptied → w.groupEmpty
  succeeded : w.guardian = .exited true → p.guardian = .emptied
  drained : p.coordinator.stage = .drained → w.groupEmpty

/-- The journal says that the workload may start, and every entry was read back. -/
def World.Recorded (w : World) (id : String) : Prop :=
  ∃ j, w.host.journals id = some j ∧ [.prepared, .applied, .workloadStarted] <+: j.stages ∧
    ∀ e ∈ j.entries, e.readBack <:+: w.tree

/-- What comes before the workload. -/
structure RunKnown (p : Phases) (w : World) : Prop where
  operation : ∀ id, p.coordinator.stage = .spawned id ∨ p.coordinator.stage = .ready id →
    w.operation = some id
  saw : ∀ id, p.coordinator.stage = .ready id → w.published .ready = true
  tree : p.coordinator.run.tree = w.tree
  authorised : w.authorised = true →
    (p.coordinator.stage = .authorised ∨ p.coordinator.stage = .drained) ∧
      w.published .ready = true ∧ ∃ id, w.operation = some id ∧ w.Recorded id
  waiting : ∀ r, p.supervisor = .waiting r ∨ p.supervisor = .released r →
    w.supervisorRequest = some r
  unspawned : w.leader = .unspawned → w.supervisorRequest = none
  request : ∀ r, w.supervisorRequest = some r → w.operation = some r.operationId
  released : ∀ r, p.supervisor = .released r → w.authorised = true
  executed : w.executed = true → w.authorised = true

/-- A later invocation passes `require_inactive` only when the guardian is gone. -/
def Excluded (p : Phases) (w : World) : Prop :=
  ∀ n, (p.invoker (.later n)).run.cleared = true → w.running (.later n) = true →
    w.authorised = true → w.guardian ≠ .running

structure Known (p : Phases) (w : World) : Prop where
  invokers : ∀ i, InvokerKnown i (p.invoker i).run w
  group : GroupKnown p w
  run : RunKnown p w
  excluded : Excluded p w

theorem known_initial (host : HostState) : Known (.of startPhase) (.initial host) where
  invokers _ := invokerKnown_initial host
  group := ⟨fun _ h => (nomatch h), fun _ => rfl, fun h => absurd rfl h, fun h => (nomatch h),
    fun h => (nomatch h), fun h => (nomatch h), fun h => nomatch h⟩
  run := by
    refine ⟨?_, ?_, rfl, fun h => (nomatch h), ?_, fun _ => rfl, fun _ h => (nomatch h),
      fun _ h => (nomatch h), fun h => nomatch h⟩
    · rintro id (h | h) <;> exact nomatch h
    · exact fun _ h => nomatch h
    · rintro r (h | h) <;> exact nomatch h
  excluded _ h := nomatch h

section Frame

variable {p p' : Phases} {w w' : World} {i : Invoker} {ψ : ProcessPhase}

/-- What is known of the group survives a step that does not touch it. -/
theorem GroupKnown.frame (h : GroupKnown p w)
    (hdrained : p'.coordinator.stage = .drained → p.coordinator.stage = .drained)
    (hguardian : p'.guardian = p.guardian)
    (hworld : (w'.published, w'.guardian, w'.acquired, w'.active) =
      (w.published, w.guardian, w.acquired, w.active))
    (hfiles : ∀ f, w'.files f = true → w.files f = true)
    (hempty : w.groupEmpty → w'.groupEmpty) : GroupKnown p' w' := by
  simp only [Prod.mk.injEq] at hworld
  obtain ⟨hpublished, hstate, hacquired, hactive⟩ := hworld
  refine ⟨?_, ?_, ?_, ?_, ?_, ?_, ?_⟩
  · rw [hpublished]
    exact fun f hf => h.published f (hfiles f hf)
  · rw [hstate, hguardian]
    exact h.unspawned
  · rw [hguardian, hacquired, hstate, hactive]
    exact h.acquired
  · rw [hpublished, hguardian]
    exact h.ready
  · rw [hguardian]
    exact fun hp => hempty (h.emptied hp)
  · rw [hstate, hguardian]
    exact h.succeeded
  · exact fun hs => hempty (h.drained (hdrained hs))

/-- What is known of the run survives a step that does not touch it. -/
theorem RunKnown.frame (h : RunKnown p w) (hcoordinator : p'.coordinator = p.coordinator)
    (hsupervisor : p'.supervisor = p.supervisor)
    (hworld : (w'.published, w'.operation, w'.supervisorRequest, w'.tree, w'.host.journals) =
      (w.published, w.operation, w.supervisorRequest, w.tree, w.host.journals))
    (hleader : w'.leader = .unspawned → w.leader = .unspawned)
    (hexecuted : w'.executed = true → w.authorised = true) : RunKnown p' w' := by
  simp only [Prod.mk.injEq] at hworld
  obtain ⟨hpublished, hoperation, hrequest, htree, hjournals⟩ := hworld
  have hauthorised : w'.authorised = w.authorised := congrFun hpublished .go
  refine ⟨?_, ?_, ?_, ?_, ?_, ?_, ?_, ?_, ?_⟩
  · rw [hcoordinator, hoperation]
    exact h.operation
  · rw [hcoordinator, hpublished]
    exact h.saw
  · rw [hcoordinator, htree]
    exact h.tree
  · unfold World.Recorded
    rw [hauthorised, hcoordinator, hpublished, hoperation, hjournals, htree]
    exact h.authorised
  · rw [hsupervisor, hrequest]
    exact h.waiting
  · rw [hrequest]
    exact fun hl => h.unspawned (hleader hl)
  · rw [hrequest, hoperation]
    exact h.request
  · rw [hsupervisor, hauthorised]
    exact h.released
  · rw [hauthorised]
    exact hexecuted

theorem Known.setInvokers (h : Known p w) (hψ : InvokerKnown i ψ.run w) (k : Invoker) :
    InvokerKnown k ((p.setInvoker i ψ).invoker k).run w := by
  by_cases hk : k = i
  · subst hk
    rw [Phases.setInvoker_self]
    exact hψ
  · rw [Phases.setInvoker_of_ne p hk]
    exact h.invokers k

/-- The world changes in a way that no journal, lock or running process has part in. -/
theorem Known.invokersFrame (h : Known p w)
    (hworld : (w'.host.journals, w'.lock, w'.running) = (w.host.journals, w.lock, w.running))
    (k : Invoker) : InvokerKnown k (p.invoker k).run w' := by
  simp only [Prod.mk.injEq] at hworld
  obtain ⟨hjournals, hlock, hrunning⟩ := hworld
  apply (h.invokers k).frame
  · rw [hrunning]
    exact fun hrun => hrun
  · rw [hlock]
    exact fun hk => hk
  · exact fun _ => hjournals

end Frame

end Snoozer.Benchctl
