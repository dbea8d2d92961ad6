import Snoozer.SupervisionInvariant

/-! Every step of every process keeps the invariant of a supervised run. -/
namespace Snoozer.Benchctl
open Interactive Fallible Protocol InvocationPhase

section Steps

variable {host : Host} {p : Phases} {w w' : World} {i : Invoker}

/-- Only `require_inactive` clears an invocation. -/
theorem cleared_next {φ φ' : InvocationPhase} {op : HostOp} {x : HostAns op}
    (hn : invocationProtocol.next φ op x = some φ') (hinactive : op ≠ .requireInactive) :
    φ'.cleared = φ.cleared := by
  cases op with
  | requireInactive => exact absurd rfl hinactive
  | coordinate request =>
    simp only [invocationProtocol] at hn
    split at hn
    · cases hn
      rfl
    · cases hn
  | write path contents =>
    simp only [invocationProtocol] at hn
    split at hn
    · cases hn
      rfl
    · cases hn
  | writeJournal id j =>
    simp only [invocationProtocol] at hn
    split at hn
    · cases hn
      rfl
    · cases hn
  | lockFor wait => cases hn; rfl
  | journalExists id => cases hn; split <;> rfl
  | readJournal id => cases hn; split <;> rfl
  | readOutcome id => cases hn; split <;> rfl
  | readStatus id => cases hn; split <;> rfl
  | readToString path => cases hn; split <;> rfl
  | _ => cases hn; rfl

/-- What is recorded stays recorded, whoever extends the journal. -/
theorem World.Recorded.extended {φ φ' : InvocationPhase} {op : HostOp} {x : HostAns op} {id : String}
    (hrecorded : w.Recorded id) (h : InvokerKnown i φ w) (hrun : w.running i = true)
    (hn : invocationProtocol.next φ op x = some φ') (hact : hostAct host (.invoker i) op w x w') :
    w'.Recorded id := by
  have heffect := hostAct_effect hact
  obtain ⟨j, hj, hstages, hback⟩ := hrecorded
  have htree : w.tree <+: w'.tree := by
    rw [heffect.tree]
    split
    · exact List.prefix_append ..
    · exact List.prefix_rfl
  have hback : ∀ e ∈ j.entries, e.readBack <:+: w'.tree :=
    fun e he => (hback e he).trans htree.isInfix
  by_cases hstore : ∃ id' j', op = .writeJournal id' j'
  · obtain ⟨id', j', rfl⟩ := hstore
    simp only [invocationProtocol] at hn
    split at hn
    · next hmay =>
      obtain ⟨s, hchanged, rfl⟩ := hact
      have hcases : s = w.host ∨ s = w.host.store id' j' := by
        cases x with
        | ok u => exact Or.inr hchanged
        | error e => exact hchanged.2
      rcases hcases with rfl | rfl
      · exact ⟨j, hj, hstages, hback⟩
      · by_cases hid : id = id'
        · subst hid
          refine ⟨j', HostState.store_self .., ?_⟩
          cases hmay with
          | create _ hrecord habsent =>
            rw [h.absent hrun hrecord id habsent] at hj
            cases hj
          | extend _ hholds _ hext =>
            rw [h.holds hrun id _ hholds] at hj
            cases hj
            obtain ⟨happends, _, hentries⟩ := hext.appends
            refine ⟨hstages.trans (happends.map _), ?_⟩
            rw [hentries]
            exact hback
        · exact ⟨j, (HostState.store_of_ne _ hid _).trans hj, hstages, hback⟩
    · cases hn
  · refine ⟨j, ?_, hstages, hback⟩
    rw [heffect.journals fun id' j' hop => hstore ⟨id', j', hop⟩]
    exact hj

/-- Every process's calls on the host. -/
theorem Known.hostCall {op : HostOp} {x : HostAns op} {ψ : ProcessPhase} (h : Known p w)
    (hrun : w.running i = true) (hn : processProtocol.next (p.invoker i) (.host op) x = some ψ)
    (hact : hostAct host (.invoker i) op w x w') : Known (p.setInvoker i ψ) w' := by
  have heffect := hostAct_effect hact
  simp only [processProtocol] at hn
  split at hn
  case isFalse => cases hn
  obtain ⟨φ', hnext, rfl⟩ := Option.map_eq_some_iff.mp hn
  have hi := h.invokers i
  have hinvokers : ∀ k, InvokerKnown k ((p.setInvoker i { p.invoker i with run := φ' }).invoker k).run
      w' := by
    intro k
    by_cases hk : k = i
    · subst hk
      rw [Phases.setInvoker_self]
      exact hi.host hnext hact
    · rw [Phases.setInvoker_of_ne p hk]
      apply (h.invokers k).frame
      · rw [heffect.same]
        exact fun hrun => hrun
      · intro hlock
        rw [heffect.taken (by rw [hlock]; simp)]
        exact hlock
      · intro hlock
        apply heffect.journals
        rintro id j rfl
        simp only [invocationProtocol] at hnext
        split at hnext
        · next hmay =>
          have hlocked : (p.invoker i).run.locked = true := by cases hmay <;> assumption
          rw [hi.held hlocked hrun] at hlock
          exact hk (Option.some.inj hlock).symm
        · cases hnext
  have hcoordinator : (p.setInvoker i { p.invoker i with run := φ' }).coordinator.stage =
        p.coordinator.stage ∧
      ((p.setInvoker i { p.invoker i with run := φ' }).coordinator.run.tree = w'.tree) := by
    cases i with
    | coordinator =>
      rw [Phases.setInvoker_coordinator, heffect.tree, if_pos rfl, ← h.run.tree]
      exact ⟨rfl, tree_next hnext⟩
    | later n =>
      rw [Phases.setInvoker_later, heffect.tree, if_neg (by simp)]
      exact ⟨rfl, h.run.tree⟩
  obtain ⟨hstage, htree⟩ := hcoordinator
  have hexcluded : Excluded (p.setInvoker i { p.invoker i with run := φ' }) w' := by
    have hinactive : op ≠ .requireInactive := by
      rintro rfl
      exact hact
    intro n
    rw [heffect.same]
    by_cases hi : Invoker.later n = i
    · subst hi
      rw [Phases.setInvoker_self, cleared_next hnext hinactive]
      exact h.excluded n
    · rw [Phases.setInvoker_of_ne p hi]
      exact h.excluded n
  refine ⟨hinvokers, ?_, ?_, hexcluded⟩
  · refine h.group.frame (fun hs => hstage ▸ hs) rfl ?_ heffect.files ?_
    · rw [heffect.same]
    · rw [heffect.same]
      exact fun hempty => hempty
  · refine ⟨?_, ?_, htree, ?_, ?_, ?_, ?_, ?_, ?_⟩
    · rw [hstage, heffect.same]
      exact h.run.operation
    · rw [hstage, heffect.same]
      exact h.run.saw
    · intro hauthorised
      rw [heffect.same] at hauthorised
      obtain ⟨hs, hready, id, hid, hrecorded⟩ := h.run.authorised hauthorised
      rw [hstage]
      refine ⟨hs, ?_, id, ?_, hrecorded.extended hi hrun hnext hact⟩
      · rw [heffect.same]
        exact hready
      · rw [heffect.same]
        exact hid
    · rw [heffect.same]
      exact h.run.waiting
    · rw [heffect.same]
      exact h.run.unspawned
    · rw [heffect.same]
      exact h.run.request
    · rw [heffect.same]
      exact h.run.released
    · rw [heffect.same]
      exact h.run.executed

/-- The supervisor only looks at the host. -/
theorem Known.watched {op : HostOp} {x : HostAns op} (h : Known p w) (hop : op.quiet = true)
    (hact : hostAct host .supervisor op w x w') : Known p w' := by
  have heffect := hostAct_effect hact
  have hlock : w'.lock = w.lock := by
    apply heffect.lock
    rintro wait rfl
    cases hop
  have hjournals : w'.host.journals = w.host.journals := by
    apply heffect.journals
    rintro id j rfl
    cases hop
  have htree : w'.tree = w.tree := heffect.tree.trans (if_neg (by simp))
  refine ⟨h.invokersFrame ?_, h.group.frame (fun hs => hs) rfl ?_ heffect.files ?_,
    h.run.frame rfl rfl ?_ ?_ ?_, ?_⟩
  · rw [hlock, hjournals, heffect.same]
  · rw [heffect.same]
  · rw [heffect.same]
    exact fun hempty => hempty
  · rw [htree, hjournals, heffect.same]
  · rw [heffect.same]
    exact fun hl => hl
  · rw [heffect.same]
    exact h.run.executed
  · intro n
    rw [heffect.same]
    exact h.excluded n

/-- An invoker that ends keeps what is known. -/
theorem Known.invokerEnded (h : Known p w) (i : Invoker) (success : Bool) :
    Known p (w.ended success (.invoker i)) := by
  have hrunning : ∀ k, (w.ended success (.invoker i)).running k = true →
      k ≠ i ∧ w.running k = true := by
    intro k hrun
    by_cases hk : k = i
    · subst hk
      rw [show (w.ended success (.invoker k)).running k = false from Function.update_self ..] at hrun
      exact nomatch hrun
    · rw [show (w.ended success (.invoker i)).running k = w.running k from
        Function.update_of_ne hk ..] at hrun
      exact ⟨hk, hrun⟩
  refine ⟨fun k => ?_, h.group.frame (fun hs => hs) rfl rfl (fun _ hf => hf) (fun he => he),
    h.run.frame rfl rfl rfl (fun hl => hl) h.run.executed,
    fun n hcleared hrun => h.excluded n hcleared (hrunning _ hrun).2⟩
  have hk := h.invokers k
  refine ⟨hk.cleared, fun hlocked hrun => ?_, hk.unlocked, fun hrun => hk.holds (hrunning k hrun).2,
    fun hrun => hk.absent (hrunning k hrun).2⟩
  obtain ⟨hki, hrun⟩ := hrunning k hrun
  have hlock := hk.held hlocked hrun
  have hother : w.lock ≠ some i := fun hi => hki (Option.some.inj (hlock.symm.trans hi))
  exact (if_neg hother).trans hlock

theorem World.not_groupEmpty_of_alive (halive : w.leader = .alive) : ¬ w.groupEmpty := by
  rintro ⟨⟨b, hb⟩, _⟩
  exact nomatch halive.symm.trans hb

theorem Known.supervisorEnded (h : Known p w) (halive : w.leader = .alive) (success : Bool) :
    Known p (w.ended success .supervisor) :=
  ⟨h.invokersFrame rfl, h.group.frame (fun hs => hs) rfl rfl (fun _ hf => hf)
      (fun hempty => absurd hempty (World.not_groupEmpty_of_alive halive)),
    h.run.frame rfl rfl rfl (fun hl => (nomatch hl)) h.run.executed, h.excluded⟩

theorem Known.guardianEnded (h : Known p w) {success : Bool}
    (hsuccess : success = true → p.guardian = .emptied) :
    Known p (w.ended success .guardian) := by
  refine ⟨h.invokersFrame rfl, ?_, h.run.frame rfl rfl rfl (fun hl => hl) h.run.executed,
    fun _ _ _ _ hg => nomatch hg⟩
  refine ⟨h.group.published, fun hg => (nomatch hg), ?_, h.group.ready, h.group.emptied, ?_,
    h.group.drained⟩
  · exact fun hp => ⟨(h.group.acquired hp).1, fun hg => nomatch hg⟩
  · intro hg
    exact hsuccess (GuardianState.exited.inj hg)

/-- The leader of the group is reaped. -/
theorem Known.reaped (h : Known p w) (b : Bool) : Known p { w with leader := .reaped b } :=
  ⟨h.invokersFrame rfl, h.group.frame (fun hs => hs) rfl rfl (fun _ hf => hf)
      (fun hempty => ⟨⟨b, rfl⟩, hempty.2⟩),
    h.run.frame rfl rfl rfl (fun hl => (nomatch hl)) h.run.executed, h.excluded⟩

/-- Processes join or leave a group that is not empty. -/
theorem Known.membersChanged (h : Known p w) (hnonempty : ¬ w.groupEmpty) (members : ℕ)
    {executed : Bool} (hexecuted : executed = true → w.authorised = true) :
    Known p { w with members := members, executed := executed } :=
  ⟨h.invokersFrame rfl, h.group.frame (fun hs => hs) rfl rfl (fun _ hf => hf)
      (fun hempty => absurd hempty hnonempty),
    h.run.frame rfl rfl rfl (fun hl => hl) hexecuted, h.excluded⟩

theorem World.publish_published (w : World) (f g : RuntimeFile) :
    (w.publish f).published g = true ↔ g = f ∨ w.published g = true := by
  by_cases hg : g = f
  · subst hg
    simp [World.publish]
  · simp [World.publish, hg]

theorem World.publish_files {w : World} (h : ∀ f, w.files f = true → w.published f = true)
    (f g : RuntimeFile) (hg : (w.publish f).files g = true) : (w.publish f).published g = true := by
  rw [World.publish_published]
  by_cases hgf : g = f
  · exact Or.inl hgf
  · refine Or.inr (h g ?_)
    rwa [show (w.publish f).files g = w.files g from Function.update_of_ne hgf ..] at hg

/-- A file that says nothing about the workload's start. -/
theorem Known.published (h : Known p w) {f : RuntimeFile} (hgo : f ≠ .go)
    (hready : f = .ready → p.guardian.Watching) : Known p (w.publish f) := by
  have hauthorised : (w.publish f).authorised = w.authorised := Function.update_of_ne hgo.symm ..
  refine ⟨h.invokersFrame rfl, ?_, ?_, ?_⟩
  · refine ⟨World.publish_files h.group.published f, h.group.unspawned, h.group.acquired, ?_,
      h.group.emptied, h.group.succeeded, h.group.drained⟩
    rw [World.publish_published]
    rintro (hf | hpublished)
    · exact hready hf.symm
    · exact h.group.ready hpublished
  · refine ⟨h.run.operation, fun id hs => ?_, h.run.tree, ?_, h.run.waiting, h.run.unspawned,
      h.run.request, ?_, ?_⟩
    · rw [World.publish_published]
      exact Or.inr (h.run.saw id hs)
    · rw [hauthorised, World.publish_published]
      intro ha
      obtain ⟨hs, hr, hid⟩ := h.run.authorised ha
      exact ⟨hs, Or.inr hr, hid⟩
    · rw [hauthorised]
      exact h.run.released
    · rw [hauthorised]
      exact h.run.executed
  · intro n
    rw [hauthorised]
    exact h.excluded n

/-- A ready file that has been seen is there. -/
theorem Known.sawReady (h : Known p w) (hfile : w.files .ready = true) :
    Known (p.setInvoker .coordinator p.coordinator.sawReady) w := by
  unfold ProcessPhase.sawReady
  split
  · next id hstage =>
    have hnot : w.authorised = true → False := by
      intro ha
      obtain ⟨hs | hs, _⟩ := h.run.authorised ha
      · exact nomatch hs.symm.trans hstage
      · exact nomatch hs.symm.trans hstage
    refine ⟨h.setInvokers (h.invokers .coordinator), ?_, ?_, ?_⟩
    · refine h.group.frame ?_ rfl rfl (fun _ hf => hf) (fun he => he)
      rw [Phases.setInvoker_coordinator]
      exact fun hs => nomatch hs
    · refine ⟨?_, fun _ _ => h.group.published .ready hfile, ?_, fun ha => (hnot ha).elim,
        h.run.waiting, h.run.unspawned, h.run.request, h.run.released, h.run.executed⟩
      · rw [Phases.setInvoker_coordinator]
        rintro id' (hs | hs)
        · exact nomatch hs
        · cases hs
          exact h.run.operation id (Or.inl hstage)
      · rw [Phases.setInvoker_coordinator]
        exact h.run.tree
    · exact fun n hcleared hrun ha => (hnot ha).elim
  · rw [show p.coordinator = p.invoker .coordinator from rfl, Phases.setInvoker_eq_self]
    exact h

/-- Nobody else has passed `require_inactive` while the coordinator has the lock. -/
theorem Known.alone (h : Known p w) (hrun : w.running .coordinator = true)
    (hlocked : p.coordinator.run.locked = true) (n : ℕ) (hlater : w.running (.later n) = true) :
    (p.invoker (.later n)).run.cleared = false := by
  by_contra hcleared
  have hn := h.invokers (.later n)
  have hlock := hn.held (hn.cleared (by simpa using hcleared)) hlater
  rw [(h.invokers .coordinator).held hlocked hrun] at hlock
  exact nomatch hlock

/-- The stage in which the coordinator authorises the workload. -/
theorem Known.authorising (h : Known p w) {id : String}
    (hstage : p.coordinator.stage = .ready id) :
    Known (p.setInvoker .coordinator { p.coordinator with stage := .authorised }) w := by
  have hnot : w.authorised = true → False := by
    intro ha
    obtain ⟨hs | hs, _⟩ := h.run.authorised ha
    · exact nomatch hs.symm.trans hstage
    · exact nomatch hs.symm.trans hstage
  refine ⟨h.setInvokers (h.invokers .coordinator), ?_, ?_, fun _ _ _ ha => (hnot ha).elim⟩
  · refine h.group.frame ?_ rfl rfl (fun _ hf => hf) (fun he => he)
    rw [Phases.setInvoker_coordinator]
    exact fun hs => nomatch hs
  · refine ⟨?_, ?_, ?_, fun ha => (hnot ha).elim, h.run.waiting, h.run.unspawned, h.run.request,
      h.run.released, h.run.executed⟩
    · rw [Phases.setInvoker_coordinator]
      rintro id' (hs | hs) <;> exact nomatch hs
    · rw [Phases.setInvoker_coordinator]
      exact fun _ hs => nomatch hs
    · rw [Phases.setInvoker_coordinator]
      exact h.run.tree

/-- The workload is authorised. -/
theorem Known.go (h : Known p w) (hrun : w.running .coordinator = true) {id : String}
    (hstage : p.coordinator.stage = .ready id) (hrecorded : p.coordinator.run.Recorded id) :
    Known (p.setInvoker .coordinator { p.coordinator with stage := .authorised })
      (w.publish .go) := by
  have hready := h.run.saw id hstage
  have h' := h.authorising hstage
  have hworld : w.Recorded id := by
    obtain ⟨_, _, j, hrecord, hstages, hback⟩ := hrecorded
    refine ⟨j, (h.invokers .coordinator).holds hrun id j (Or.inl hrecord), ?_, ?_⟩
    · exact hstages ▸ List.prefix_rfl
    · rw [← h.run.tree]
      exact hback
  have hauthorised : (w.publish .go).authorised = true :=
    (World.publish_published w .go .go).mpr (Or.inl rfl)
  refine ⟨h'.invokersFrame rfl, ?_, ?_, ?_⟩
  · exact ⟨World.publish_files h.group.published .go, h.group.unspawned, h.group.acquired,
      fun _ => h.group.ready hready, h.group.emptied, h.group.succeeded, h'.group.drained⟩
  · refine ⟨h'.run.operation, ?_, h'.run.tree, ?_, h.run.waiting, h.run.unspawned, h.run.request,
      fun _ _ => hauthorised, fun _ => hauthorised⟩
    · rw [Phases.setInvoker_coordinator]
      exact fun _ hs => nomatch hs
    · rw [Phases.setInvoker_coordinator, World.publish_published]
      exact fun _ => ⟨Or.inl rfl, Or.inr hready, id, h.run.operation id (Or.inr hstage), hworld⟩
  · intro n hcleared hlater
    rw [Phases.setInvoker_of_ne p (by simp)] at hcleared
    exact absurd (hcleared.symm.trans (h.alone hrun hrecorded.1 n hlater)) (by simp)

/-- Spawning the supervisor keeps what is known. -/
theorem Known.spawned (h : Known p w) (hstage : p.coordinator.stage = .before)
    (hleader : w.leader = .unspawned) (request : SupervisorRequest) :
    Known (p.setInvoker .coordinator { p.coordinator with stage := .spawned request.operationId })
      { w with
        leader := .alive
        operation := some request.operationId
        supervisorRequest := some request } := by
  have hnot : w.authorised = true → False := by
    intro ha
    obtain ⟨hs | hs, _⟩ := h.run.authorised ha
    · exact nomatch hs.symm.trans hstage
    · exact nomatch hs.symm.trans hstage
  have hinvokers := h.setInvokers (ψ := { p.coordinator with
    stage := .spawned request.operationId }) (h.invokers .coordinator)
  have hnone := h.run.unspawned hleader
  refine ⟨fun k => (hinvokers k).frame (fun h => h) (fun h => h) fun _ => rfl, ?_, ?_,
    fun _ _ _ ha => (hnot ha).elim⟩
  · refine h.group.frame ?_ rfl rfl (fun _ hf => hf) ?_
    · rw [Phases.setInvoker_coordinator]
      exact fun hs => nomatch hs
    · rintro ⟨⟨b, hb⟩, _⟩
      exact nomatch hleader.symm.trans hb
  · refine ⟨?_, ?_, ?_, fun ha => (hnot ha).elim, ?_, fun hl => (nomatch hl), ?_, h.run.released,
      h.run.executed⟩
    · rw [Phases.setInvoker_coordinator]
      rintro id (hs | hs)
      · cases hs
        rfl
      · exact nomatch hs
    · rw [Phases.setInvoker_coordinator]
      exact fun _ hs => nomatch hs
    · rw [Phases.setInvoker_coordinator]
      exact h.run.tree
    · intro r hr
      exact nomatch hnone.symm.trans (h.run.waiting r hr)
    · intro r hr
      cases hr
      rfl

/-- Spawning the guardian keeps what is known. -/
theorem Known.guardianSpawned (h : Known p w) {id : String}
    (hstage : p.coordinator.stage = .spawned id) (hguardian : w.guardian = .unspawned)
    (request : GuardianRequest) :
    Known p { w with guardian := .running, guardianRequest := some request } := by
  refine ⟨h.invokersFrame rfl, ?_, h.run.frame rfl rfl rfl (fun hl => hl) h.run.executed, ?_⟩
  · exact ⟨h.group.published, fun hg => (nomatch hg),
      fun hp => absurd (h.group.unspawned hguardian) hp, h.group.ready, h.group.emptied,
      fun hg => (nomatch hg), h.group.drained⟩
  · intro _ _ _ ha
    obtain ⟨hs | hs, _⟩ := h.run.authorised ha
    · exact nomatch hs.symm.trans hstage
    · exact nomatch hs.symm.trans hstage

/-- The coordinator has seen the guardian succeed. -/
theorem Known.drained (h : Known p w) (hguardian : w.guardian = .exited true) :
    Known (p.setInvoker .coordinator { p.coordinator with stage := .drained }) w := by
  refine ⟨h.setInvokers (h.invokers .coordinator), ?_, ?_, ?_⟩
  · exact ⟨h.group.published, h.group.unspawned, h.group.acquired, h.group.ready,
      h.group.emptied, h.group.succeeded,
      fun _ => h.group.emptied (h.group.succeeded hguardian)⟩
  · refine ⟨?_, ?_, ?_, ?_, h.run.waiting, h.run.unspawned, h.run.request, h.run.released,
      h.run.executed⟩
    · rw [Phases.setInvoker_coordinator]
      rintro id' (hs | hs) <;> exact nomatch hs
    · rw [Phases.setInvoker_coordinator]
      exact fun _ hs => nomatch hs
    · rw [Phases.setInvoker_coordinator]
      exact h.run.tree
    · rw [Phases.setInvoker_coordinator]
      intro ha
      exact ⟨Or.inr rfl, (h.run.authorised ha).2⟩
  · exact fun _ _ _ _ hg => nomatch hguardian.symm.trans hg

/-- A process has passed `require_inactive`: the guardian is not there. -/
theorem Known.cleared (h : Known p w) (hlocked : (p.invoker i).run.locked = true)
    (hactive : w.active = none) :
    Known (p.setInvoker i { p.invoker i with
      run := { (p.invoker i).run with cleared := true } }) w := by
  have hi := h.invokers i
  have hstage : (p.setInvoker i { p.invoker i with
        run := { (p.invoker i).run with cleared := true } }).coordinator.stage =
      p.coordinator.stage ∧
      (p.setInvoker i { p.invoker i with
        run := { (p.invoker i).run with cleared := true } }).coordinator.run.tree =
      p.coordinator.run.tree := by
    cases i with
    | coordinator =>
      rw [Phases.setInvoker_coordinator]
      exact ⟨rfl, rfl⟩
    | later n =>
      rw [Phases.setInvoker_later]
      exact ⟨rfl, rfl⟩
  refine ⟨h.setInvokers ⟨fun _ => hlocked, hi.held, hi.unlocked, hi.holds, hi.absent⟩, ?_, ?_, ?_⟩
  · exact h.group.frame (fun hs => hstage.1 ▸ hs) rfl rfl (fun _ hf => hf) (fun he => he)
  · refine ⟨?_, ?_, hstage.2.trans h.run.tree, ?_, h.run.waiting, h.run.unspawned, h.run.request,
      h.run.released, h.run.executed⟩
    all_goals rw [hstage.1]
    exacts [h.run.operation, h.run.saw, h.run.authorised]
  · intro n _ _ ha hg
    have hwatching := h.group.ready (h.run.authorised ha).2.1
    have hstarted : p.guardian ≠ .starting := by
      rcases hwatching with hp | hp <;> (rw [hp]; simp)
    exact nomatch hactive.symm.trans ((h.group.acquired hstarted).2 hg)

/-- A step of the coordinator keeps what is known. -/
theorem Known.coordinatorStep {op : ProcessOp} {x : ProcessAns op} {ψ : ProcessPhase}
    (h : Known p w) (hrun : w.running .coordinator = true)
    (hn : processProtocol.next p.coordinator op x = some ψ)
    (hact : childAct host (.invoker .coordinator) op w x w') :
    Known (p.setInvoker .coordinator ψ) w' := by
  have hsame : p.setInvoker .coordinator p.coordinator = p := p.setInvoker_eq_self .coordinator
  -- Calls that neither change the world nor tell anything.
  have hquiet : ψ = p.coordinator → w' = w → Known (p.setInvoker .coordinator ψ) w' := by
    rintro rfl rfl
    rw [hsame]
    exact h
  cases op with
  | host op => exact h.hostCall hrun hn hact
  | supervisorArguments => cases hn
  | guardianArguments => cases hn
  | lockActive => cases hn
  | spawnWorkload command => cases hn
  | fileExists file =>
    obtain ⟨rfl, rfl⟩ := hact
    cases file with
    | ready =>
      cases hn
      split
      · next hx => exact h.sawReady hx
      · rw [hsame]
        exact h
    | _ => cases hn; exact hquiet rfl rfl
  | publish file =>
    cases file with
    | ready => cases hn
    | drained => cases hn
    | go =>
      simp only [processProtocol] at hn
      split at hn
      · next hmay =>
        cases hn
        obtain ⟨id, hstage, hrecorded⟩ := hmay
        rcases hact with rfl | ⟨_, rfl⟩
        · exact h.go hrun hstage hrecorded
        · exact h.authorising hstage
      · cases hn
    | drain =>
      cases hn
      rw [hsame]
      rcases hact with rfl | ⟨_, rfl⟩
      · refine h.published (by simp) fun hf => ?_
        cases hf
      · exact h
  | spawnSupervisor request =>
    simp only [processProtocol] at hn
    split at hn
    · next hmay =>
      cases hn
      cases x with
      | ok pid =>
        obtain ⟨hleader, rfl⟩ := hact
        exact h.spawned hmay.1 hleader request
      | error e => exact hquiet rfl hact
    · cases hn
  | spawnGuardian request =>
    simp only [processProtocol] at hn
    split at hn
    · next hmay =>
      cases hn
      obtain ⟨id, hstage⟩ := hmay
      cases x with
      | ok u =>
        obtain ⟨hguardian, rfl⟩ := hact
        rw [hsame]
        exact h.guardianSpawned hstage hguardian request
      | error e => exact hquiet rfl hact
    · cases hn
  | tryWait child =>
    cases hn
    cases child with
    | guardian => exact hquiet rfl hact.1
    | supervisor =>
      rw [hsame]
      rcases x with e | _ | status
      · exact hact ▸ h
      · exact hact.2 ▸ h
      · rw [hact.2]
        exact h.reaped _
  | wait child =>
    cases child with
    | guardian =>
      cases hn
      obtain ⟨rfl, hx⟩ := hact
      cases x with
      | error e => exact hquiet rfl rfl
      | ok status =>
        change Known (p.setInvoker .coordinator (if status.success = true ∧
          p.coordinator.stage = .authorised then { p.coordinator with stage := .drained }
          else p.coordinator)) w'
        split
        · next hsuccess => exact h.drained (by rw [hx, hsuccess.1])
        · rw [hsame]
          exact h
    | supervisor =>
      cases hn
      rw [hsame]
      cases x with
      | error e => exact hact ▸ h
      | ok status =>
        rw [hact.2]
        exact h.reaped _
  | tryLockActive =>
    simp only [processProtocol] at hn
    split at hn
    · next hlocked =>
      cases hn
      obtain ⟨rfl, hactive⟩ := hact
      cases x with
      | ok u => exact h.cleared hlocked hactive
      | error e => exact hquiet rfl rfl
    · cases hn
  | exit success =>
    cases hn
    rw [hsame, show w' = w.ended success (.invoker .coordinator) from hact]
    exact h.invokerEnded .coordinator success
  | killpg signal => cases hn; exact hquiet rfl hact.1
  | hasParent => cases hn; exact hquiet rfl hact.2
  | _ => cases hn; exact hquiet rfl hact

/-- Calls in `supervision.rs` do not touch what a process knows of the journals. -/
theorem run_next {ψ ψ' : ProcessPhase} {op : ProcessOp} {x : ProcessAns op}
    (hn : processProtocol.next ψ op x = some ψ') (hhost : ∀ op', op ≠ .host op')
    (hclear : op ≠ .tryLockActive) : ψ'.run = ψ.run := by
  cases op with
  | host op => exact absurd rfl (hhost op)
  | tryLockActive => exact absurd rfl hclear
  | supervisorArguments => cases hn
  | guardianArguments => cases hn
  | lockActive => cases hn
  | spawnWorkload command => cases hn
  | fileExists file =>
    cases file with
    | ready =>
      cases hn
      split
      · unfold ProcessPhase.sawReady
        split <;> rfl
      · rfl
    | _ => cases hn; rfl
  | publish file =>
    cases file with
    | ready => cases hn
    | drained => cases hn
    | drain => cases hn; rfl
    | go =>
      simp only [processProtocol] at hn
      split at hn
      · cases hn
        rfl
      · cases hn
  | spawnSupervisor request =>
    simp only [processProtocol] at hn
    split at hn
    · cases hn
      split <;> rfl
    · cases hn
  | spawnGuardian request =>
    simp only [processProtocol] at hn
    split at hn
    · cases hn
      rfl
    · cases hn
  | wait child =>
    cases child with
    | guardian =>
      cases hn
      split
      · split <;> rfl
      · rfl
    | supervisor => cases hn; rfl
  | _ => cases hn; rfl

/-- A later invocation may be anywhere in its own supervised run. -/
theorem Known.laterStage {n : ℕ} {ψ : ProcessPhase} (h : Known p w)
    (hψ : ψ.run = (p.invoker (.later n)).run) : Known (p.setInvoker (.later n) ψ) w := by
  have hcoordinator := p.setInvoker_later n ψ
  refine ⟨h.setInvokers (hψ ▸ h.invokers (.later n)), ?_, ?_, ?_⟩
  · exact h.group.frame (fun hs => hcoordinator ▸ hs) rfl rfl (fun _ hf => hf) (fun he => he)
  · exact h.run.frame hcoordinator rfl rfl (fun hl => hl) h.run.executed
  · intro k
    by_cases hk : Invoker.later k = .later n
    · cases hk
      rw [Phases.setInvoker_self, hψ]
      exact h.excluded n
    · rw [Phases.setInvoker_of_ne p hk]
      exact h.excluded k

/-- A step of a later invocation keeps what is known. -/
theorem Known.laterStep {n : ℕ} {op : ProcessOp} {x : ProcessAns op} {ψ : ProcessPhase}
    (h : Known p w) (hrun : w.running (.later n) = true)
    (hn : processProtocol.next (p.invoker (.later n)) op x = some ψ)
    (hact : laterAct host n op w x w') : Known (p.setInvoker (.later n) ψ) w' := by
  cases op with
  | host op => exact h.hostCall hrun hn hact
  | tryLockActive =>
    simp only [processProtocol] at hn
    split at hn
    · next hlocked =>
      cases hn
      obtain ⟨rfl, hactive⟩ := hact
      cases x with
      | ok u => exact h.cleared hlocked hactive
      | error e =>
        change Known (p.setInvoker (.later n) (p.invoker (.later n))) w'
        rw [Phases.setInvoker_eq_self]
        exact h
    · cases hn
  | exit success =>
    cases hn
    rw [Phases.setInvoker_eq_self, show w' = w.ended success (.invoker (.later n)) from hact]
    exact h.invokerEnded (.later n) success
  | _ =>
    rw [show w' = w from hact]
    exact h.laterStage (run_next hn (by simp) (by simp))

theorem Known.supervisorPhase (h : Known p w) {φ : SupervisorPhase}
    (hwaiting : ∀ r, φ = .waiting r ∨ φ = .released r → w.supervisorRequest = some r)
    (hreleased : ∀ r, φ = .released r → w.authorised = true) :
    Known { p with supervisor := φ } w :=
  ⟨h.invokers, h.group.frame (fun hs => hs) rfl rfl (fun _ hf => hf) (fun he => he),
    ⟨h.run.operation, h.run.saw, h.run.tree, h.run.authorised, hwaiting, h.run.unspawned,
      h.run.request, hreleased, h.run.executed⟩, h.excluded⟩

/-- The supervisor has seen the go file. -/
theorem Known.sawGo (h : Known p w) (hgo : w.files .go = true) :
    Known { p with supervisor := p.supervisor.release } w := by
  have hauthorised : w.authorised = true := h.group.published .go hgo
  apply h.supervisorPhase _ fun _ _ => hauthorised
  intro r hr
  apply h.run.waiting r
  cases hp : p.supervisor with
  | starting =>
    rw [hp] at hr
    rcases hr with hr | hr <;> exact nomatch hr
  | waiting request =>
    rw [hp] at hr
    rcases hr with hr | hr
    · exact nomatch hr
    · cases hr
      exact Or.inl rfl
  | released request =>
    rw [hp] at hr
    exact hr

/-- A step of the supervisor keeps what is known. -/
theorem Known.supervisorStep {op : ProcessOp} {x : ProcessAns op} {ψ : SupervisorPhase}
    (h : Known p w) (hrun : w.leader = .alive)
    (hn : supervisorProtocol.next p.supervisor op x = some ψ)
    (hact : childAct host .supervisor op w x w') : Known { p with supervisor := ψ } w' := by
  have hquiet : ψ = p.supervisor → w' = w → Known { p with supervisor := ψ } w' := by
    rintro rfl rfl
    exact h
  cases op with
  | supervisorArguments =>
    obtain ⟨hrequest, rfl⟩ := hact
    simp only [supervisorProtocol] at hn
    split at hn
    · cases hn
      refine h.supervisorPhase ?_ (fun r hr => nomatch hr)
      rintro r (hr | hr)
      · cases hr
        exact hrequest
      · exact nomatch hr
    · cases hn
  | fileExists file =>
    obtain ⟨rfl, rfl⟩ := hact
    cases file with
    | go =>
      cases hn
      split
      · next hgo => exact h.sawGo hgo
      · exact h
    | _ => cases hn
  | spawnWorkload command =>
    simp only [supervisorProtocol] at hn
    split at hn
    · next request hreleased =>
      split at hn
      · cases hn
        cases x with
        | error e => exact hquiet rfl hact
        | ok u =>
          rw [show w' = { w with members := w.members + 1, executed := true } from hact]
          exact h.membersChanged (World.not_groupEmpty_of_alive hrun) _
            fun _ => h.run.released request hreleased
      · cases hn
    · cases hn
  | host op =>
    simp only [supervisorProtocol] at hn
    split at hn
    · next hop =>
      cases hn
      exact h.watched (HostOp.quiet_of_looks hop) hact
    · cases hn
  | exit success =>
    simp only [supervisorProtocol] at hn
    split at hn
    · cases hn
    · cases hn
      rw [show w' = w.ended success .supervisor from hact]
      exact h.supervisorEnded hrun success
  | hasParent => cases hn; exact hquiet rfl hact.2
  | elapsed limit => cases hn; exact hquiet rfl hact
  | sleep => cases hn; exact hquiet rfl hact
  | productionProof id build => cases hn; exact hquiet rfl hact
  | openExecutable path => cases hn; exact hquiet rfl hact
  | descriptorIsFile => cases hn; exact hquiet rfl hact
  | readDescriptor => cases hn; exact hquiet rfl hact
  | rewindDescriptor => cases hn; exact hquiet rfl hact
  | inheritDescriptor => cases hn; exact hquiet rfl hact
  | waitWorkload => cases hn; exact hquiet rfl hact
  | writeStatus id status => cases hn; exact hquiet rfl hact
  | _ => cases hn

theorem Known.guardianPhase (h : Known p w) (hrun : w.guardian = .running) {γ : GuardianPhase}
    (hacquired : γ ≠ .starting → w.acquired = true ∧ w.active = some .guardian)
    (hready : w.published .ready = true → γ.Watching) (hemptied : γ = .emptied → w.groupEmpty) :
    Known { p with guardian := γ } w := by
  refine ⟨h.invokers, ?_, h.run.frame rfl rfl rfl (fun hl => hl) h.run.executed, h.excluded⟩
  refine ⟨h.group.published, fun hg => (nomatch hrun.symm.trans hg), ?_, hready, hemptied,
    fun hg => (nomatch hrun.symm.trans hg), h.group.drained⟩
  exact fun hγ => ⟨(hacquired hγ).1, fun _ => (hacquired hγ).2⟩

/-- The guardian gets `active.lock`. -/
theorem Known.activeLocked (h : Known p w) :
    Known p { w with active := some .guardian, acquired := true } := by
  refine ⟨h.invokersFrame rfl, ?_, h.run.frame rfl rfl rfl (fun hl => hl) h.run.executed,
    h.excluded⟩
  exact ⟨h.group.published, h.group.unspawned, fun _ => ⟨rfl, fun _ => rfl⟩, h.group.ready,
    h.group.emptied, h.group.succeeded, h.group.drained⟩

/-- A step of the guardian keeps what is known. -/
theorem Known.guardianStep {op : ProcessOp} {x : ProcessAns op} {ψ : GuardianPhase}
    (h : Known p w) (hrun : w.guardian = .running)
    (hn : guardianProtocol.next p.guardian op x = some ψ)
    (hact : childAct host .guardian op w x w') : Known { p with guardian := ψ } w' := by
  have hquiet : ψ = p.guardian → w' = w → Known { p with guardian := ψ } w' := by
    rintro rfl rfl
    exact h
  cases op with
  | lockActive =>
    simp only [guardianProtocol] at hn
    split at hn
    · next hstarting =>
      cases hn
      cases x with
      | error e => exact hquiet rfl hact
      | ok u =>
        obtain ⟨_, rfl⟩ := hact
        apply h.activeLocked.guardianPhase hrun (fun _ => ⟨rfl, rfl⟩)
        · intro hready
          have hwatching := h.group.ready hready
          rw [hstarting] at hwatching
          rcases hwatching with hp | hp <;> exact nomatch hp
        · exact fun hγ => nomatch hγ
    · cases hn
  | publish file =>
    cases file with
    | go => cases hn
    | drain => cases hn
    | ready =>
      simp only [guardianProtocol] at hn
      split at hn
      · next hlocked =>
        cases hn
        obtain ⟨hacquired, hactive⟩ := h.group.acquired (by rw [hlocked]; simp)
        have h' : Known { p with guardian := .readied } w :=
          h.guardianPhase hrun (fun _ => ⟨hacquired, hactive hrun⟩) (fun _ => Or.inl rfl)
            (fun hγ => nomatch hγ)
        rcases hact with rfl | ⟨_, rfl⟩
        · exact h'.published (by simp) fun _ => Or.inl rfl
        · exact h'
      · cases hn
    | drained =>
      simp only [guardianProtocol] at hn
      split at hn
      · cases hn
        rcases hact with rfl | ⟨_, rfl⟩
        · exact h.published (by simp) (fun hf => nomatch hf)
        · exact h
      · cases hn
  | killpg signal =>
    cases signal with
    | some signal => cases hn; exact hquiet rfl hact.1
    | none =>
      obtain ⟨rfl, hx⟩ := hact
      rcases x with (_ | text) | u
      · simp only [guardianProtocol] at hn
        split at hn
        · next hwatching =>
          cases hn
          have hstarted : p.guardian ≠ .starting := by
            rcases hwatching with hp | hp <;> (rw [hp]; simp)
          obtain ⟨hacquired, hactive⟩ := h.group.acquired hstarted
          exact h.guardianPhase hrun (fun _ => ⟨hacquired, hactive hrun⟩) (fun _ => Or.inr rfl)
            fun _ => hx
        · cases hn
      · cases hn; exact hquiet rfl rfl
      · cases hn; exact hquiet rfl rfl
  | exit success =>
    simp only [guardianProtocol] at hn
    split at hn
    · next hsuccess =>
      cases hn
      rw [show w' = w.ended success .guardian from hact]
      exact h.guardianEnded hsuccess
    · cases hn
  | guardianArguments => cases hn; exact hquiet rfl hact.2
  | openActiveLock => cases hn; exact hquiet rfl hact
  | fileExists file => cases hn; exact hquiet rfl hact.2
  | hasParent => cases hn; exact hquiet rfl hact.2
  | elapsed limit => cases hn; exact hquiet rfl hact
  | sleep => cases hn; exact hquiet rfl hact
  | _ => cases hn

/-- A process of another run takes `active.lock` or lets it go. -/
theorem Known.activeChanged {active : Option ActiveHolder} (h : Known p w)
    (hactive : w.active ≠ some .guardian) : Known p { w with active := active } := by
  refine ⟨h.invokersFrame rfl, ?_, h.run.frame rfl rfl rfl (fun hl => hl) h.run.executed,
    h.excluded⟩
  exact ⟨h.group.published, h.group.unspawned,
    fun hp => ⟨(h.group.acquired hp).1, fun hg => absurd ((h.group.acquired hp).2 hg) hactive⟩,
    h.group.ready, h.group.emptied, h.group.succeeded, h.group.drained⟩

/-- The environment keeps what is known. -/
theorem Known.env (h : Known p w) (henv : WorldEnv w w') : Known p w' := by
  cases henv with
  | killed r hr =>
    cases r with
    | invoker i => exact h.invokerEnded i false
    | supervisor => exact h.supervisorEnded hr false
    | guardian => exact h.guardianEnded (fun hs => nomatch hs)
  | adopted _ _ => exact h.reaped _
  | forked hmember =>
    apply h.membersChanged _ _ h.run.executed
    rintro ⟨⟨b, hb⟩, hzero⟩
    rcases hmember with halive | hpos
    · exact nomatch halive.symm.trans hb
    · omega
  | memberExited hmember =>
    apply h.membersChanged _ _ h.run.executed
    intro hempty
    rw [hempty.2] at hmember
    exact nomatch hmember
  | otherLocked hactive => exact h.activeChanged (by rw [hactive]; simp)
  | otherReleased hactive => exact h.activeChanged (by rw [hactive]; simp)

end Steps

variable {host : Host} {codec : Codec} {sysfsRoot stateRoot : PathBuf} {request : RunRequest}
  {later : ℕ → Invocation}

theorem party_obeys (r : Party) :
    (partyProtocol r).Follows (supervisionPrograms codec sysfsRoot stateRoot request later r)
      (startPhase r) fun _ _ => True := by
  cases r with
  | invoker i =>
    apply follows_mono (process_invocation codec sysfsRoot stateRoot (invocationOf request later i)
      .initial rfl)
    exact fun _ _ _ => trivial
  | supervisor => exact follows_mono (supervisor_process .starting rfl) fun _ _ _ => trivial
  | guardian => exact follows_mono (guardian_process .starting rfl) fun _ _ _ => trivial

/-- A permitted step of any process. -/
theorem Known.step {r : Party} {φ : (r : Party) → PartyPhase r} {op : ProcessOp}
    {x : ProcessAns op} {φ' : PartyPhase r} {w w' : World} (h : Known (.of φ) w)
    (hn : (partyProtocol r).next (φ r) op x = some φ')
    (hact : (supervisionParties host).act r op w x w') :
    Known (.of (Function.update φ r φ')) w' := by
  obtain ⟨hrun, hact⟩ := hact
  rcases r with i | _ | _
  · rw [Phases.of_update_invoker]
    cases i with
    | coordinator => exact h.coordinatorStep hrun hn hact
    | later n => exact h.laterStep hrun hn hact
  · exact h.supervisorStep hrun hn hact
  · exact h.guardianStep hrun hn hact

/-- In every state that a run and the invocations around it reach, under any scheduling and
with any process killed at any time, the invariant holds and every process is at a call
that its protocol permits. -/
theorem known_reach {s : HostState}
    {c : Pool Party ProcessOp ProcessAns (fun _ => Except BenchError Unit) × World}
    (hr : PoolReach (supervisionParties host)
      (supervisionPrograms codec sysfsRoot stateRoot request later, World.initial s) c) :
    ∃ φ : (r : Party) → PartyPhase r, Known (.of φ) c.2 ∧
      ∀ r, (partyProtocol r).Allows (c.1 r).head (φ r) := by
  obtain ⟨φ, hknown, hallows⟩ := hr.phases (J := fun φ => Known (.of φ)) party_obeys
    (known_initial s) (fun _ _ _ _ _ _ _ h hn hact => h.step hn hact) fun _ _ _ h he => h.env he
  exact ⟨φ, hknown, fun r => (hallows r).1⟩

end Snoozer.Benchctl
