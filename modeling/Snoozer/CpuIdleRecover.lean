import Snoozer.CpuIdleRestore

/-! `recover` keeps the invariant of the host, and without I/O errors it restores the
unfinished operation, named or found. -/
namespace Snoozer.Benchctl
open Interactive Fallible

variable {codec : Codec} {host : Host} {root : PathBuf} {base : Sysfs} {faults : Bool}
  {α : Type} {id : String} {j : Journal} {I P : HostState → Prop}
  {A : α → HostState → Prop} {B : BenchError → HostState → Prop} {s₀ : HostState}

/-- A call that changes nothing, the check of its answer, and the rest. -/
theorem triple_checked {γ : Type} {op : HostOp} {f : HostAns op → Bench γ} {g : γ → Bench α}
    {K : γ → Prop} (hop : ∀ s x s', host.act faults op s x s' → s' = s ∧
      ((∃ c, f x = pure c ∧ K c) ∨ faults = true ∧ ∃ e, f x = throw e))
    (hfail : ∀ e s, I s → P s → faults = true → B e s)
    (hg : ∀ c, K c → Triple (host.machine faults false) I P (g c) A B) :
    Triple (host.machine faults false) I P (ask op >>= fun x => f x >>= g) A B := by
  have hM := host.closed faults
  refine hM.triple_bind (A := fun x s =>
    ((∃ c, f x = pure c ∧ K c) ∨ faults = true ∧ ∃ e, f x = throw e) ∧ P s)
    (hM.triple_ask ?_) fun x => triple_of_pure fun hx => ?_
  · intro s x s' hI hP hact
    obtain ⟨rfl, hx⟩ := hop s x s' hact
    exact ⟨hI, hx, hP⟩
  · rcases hx with ⟨c, hc, hK⟩ | ⟨hfaults, e, he⟩
    · rw [hc]
      exact hg c hK
    · rw [he]
      exact hM.triple_throw fun s hI hP => hfail e s hI hP hfaults

/-- The same at the end of a program. -/
theorem triple_checked_last {op : HostOp} {f : HostAns op → Bench α} {K : α → Prop}
    (hop : ∀ s x s', host.act faults op s x s' → s' = s ∧
      ((∃ c, f x = pure c ∧ K c) ∨ faults = true ∧ ∃ e, f x = throw e)) :
    Triple (host.machine faults false) I P (ask op >>= f) (fun c s => K c ∧ P s)
      (fun _ s => P s ∧ faults = true) := by
  have hM := host.closed faults
  refine hM.triple_bind (A := fun x s =>
    ((∃ c, f x = pure c ∧ K c) ∨ faults = true ∧ ∃ e, f x = throw e) ∧ P s)
    (hM.triple_ask ?_) fun x => triple_of_pure fun hx => ?_
  · intro s x s' hI hP hact
    obtain ⟨rfl, hx⟩ := hop s x s' hact
    exact ⟨hI, hx, hP⟩
  · rcases hx with ⟨c, hc, hK⟩ | ⟨hfaults, e, he⟩
    · rw [hc]
      exact hM.triple_pure fun _ _ hP => ⟨hK, hP⟩
    · rw [he]
      exact hM.triple_throw fun _ _ hP => ⟨hP, hfaults⟩

theorem answered_ioResult {good : α → Prop} {operation : String} {x : Except IoError α}
    (h : Answered faults good False x) :
    (∃ a, ioResult operation x = pure a ∧ good a) ∨
      faults = true ∧ ∃ e, ioResult operation x = throw e := by
  cases x with
  | ok a => exact Or.inl ⟨a, rfl, h⟩
  | error e => exact Or.inr ⟨h.resolve_right (fun h => h), _, rfl⟩

theorem answered_ofExcept {good : α → Prop} {x : Except BenchError α}
    (h : Answered faults good False x) :
    (∃ a, ofExcept x = pure a ∧ good a) ∨ faults = true ∧ ∃ e, ofExcept x = throw e := by
  cases x with
  | ok a => exact Or.inl ⟨a, rfl, h⟩
  | error e => exact Or.inr ⟨h.resolve_right (fun h => h), _, rfl⟩

/-- Securing the state directory changes nothing that is modelled and fails by I/O errors only. -/
theorem triple_secureStateDirectory :
    Triple (host.machine faults false) I P secureStateDirectory (fun _ => P)
      (fun _ s => P s ∧ faults = true) := by
  have hM := host.closed faults
  refine triple_checked (K := fun _ => True) ?_ (fun _ _ _ hP hfaults => ⟨hP, hfaults⟩)
    fun _ _ => ?_
  · exact fun s x s' h => ⟨h.2, answered_ioResult h.1⟩
  refine triple_checked (K := fun m => faults = true ∨ m.isSymlink = false ∧ m.isDir = true ∧
      m.uid = host.uid ∧ m.mode % 0o1000 = 0o700) ?_
    (fun _ _ _ hP hfaults => ⟨hP, hfaults⟩) fun m hm => ?_
  · exact fun s x s' h => ⟨h.2, answered_ioResult h.1⟩
  refine triple_ite (fun hbad => ?_) fun _ => ?_
  · refine hM.triple_throw fun s _ hP => ⟨hP, ?_⟩
    rcases hm with hfaults | ⟨hlink, hdir, _⟩
    · exact hfaults
    · simp [hlink, hdir] at hbad
  · refine hM.triple_bind (A := fun a s => (faults = true ∨ a.uid = host.uid) ∧ P s)
      (hM.triple_ask ?_) fun a => triple_of_pure fun ha => triple_ite (fun hbad => ?_) fun _ => ?_
    · rintro s a s' hI hP ⟨ha, rfl⟩
      exact ⟨hI, ha, hP⟩
    · refine hM.triple_throw fun s _ hP => ⟨hP, ?_⟩
      rcases ha with hfaults | ha
      · exact hfaults
      · rcases hm with hfaults | ⟨_, _, huid, hmode⟩
        · exact hfaults
        · simp [huid, ha, hmode] at hbad
    · exact hM.triple_pure fun _ _ hP => hP

/-- So does entering it, the lock included. -/
theorem triple_enterStateDirectory (wait : Bool) :
    Triple (host.machine faults false) I P (enterStateDirectory wait) (fun _ => P)
      (fun _ s => P s ∧ faults = true) := by
  have hM := host.closed faults
  refine triple_checked (K := fun _ => True) ?_ (fun _ _ _ hP hfaults => ⟨hP, hfaults⟩)
    fun _ _ => ?_
  · exact fun s x s' h => ⟨h.2, answered_ioResult h.1⟩
  refine hM.triple_bind triple_secureStateDirectory fun _ => ?_
  refine triple_checked (K := fun _ => True) ?_ (fun _ _ _ hP hfaults => ⟨hP, hfaults⟩)
    fun _ _ => ?_
  · exact fun s x s' h => ⟨h.2, answered_ofExcept h.1⟩
  refine (triple_checked_last (K := fun _ => True) ?_).post fun _ _ _ h => h.2
  exact fun s x s' h => ⟨h.2, answered_ofExcept h.1⟩

theorem triple_readBootId :
    Triple (host.machine faults false) I P readBootId (fun b s => b = trim host.bootId ∧ P s)
      (fun _ s => P s ∧ faults = true) := by
  refine triple_checked (K := fun c => c = host.bootId) ?_
    (fun _ _ _ hP hfaults => ⟨hP, hfaults⟩) fun c hc => (host.closed faults).triple_pure fun _ _ hP =>
      ⟨congrArg trim hc, hP⟩
  exact fun s x s' h => ⟨h.2, answered_ioResult h.1⟩

theorem triple_cleanupRuntime (id : String) :
    Triple (host.machine faults false) I P (cleanupRuntime id) (fun _ => P)
      (fun _ s => P s ∧ faults = true) := by
  refine (triple_checked_last (K := fun _ => True) ?_).post fun _ _ _ h => h.2
  exact fun s x s' h => ⟨h.2, answered_ioResult h.1⟩

/-- Looking for the outcome of the supervisor changes nothing. -/
theorem triple_recoverOutcome (id : String) :
    Triple (host.machine faults false) I P (recoverOutcome id) (fun _ => P)
      (fun _ s => P s ∧ faults = true) := by
  refine triple_checked (K := fun _ => True) ?_ (fun _ _ _ hP hfaults => ⟨hP, hfaults⟩)
    fun outcome _ => ?_
  · exact fun s x s' h => ⟨h.2, answered_ofExcept h.1⟩
  cases outcome with
  | some outcome => exact (host.closed faults).triple_pure fun _ _ hP => hP
  | none =>
    refine triple_checked (K := fun _ => True) ?_ (fun _ _ _ hP hfaults => ⟨hP, hfaults⟩)
      fun _ _ => (host.closed faults).triple_pure fun _ _ hP => hP
    exact fun s x s' h => ⟨h.2, answered_ofExcept h.1⟩

theorem HostInv.valid (hI : HostInv codec host root base s₀) (id : String) (j : Journal)
    (hj : s₀.journals id = some j) : j.validate codec = .ok () :=
  (hI.sound id j hj).valid

/-- The loaded journal is the stored one, if that passes its check. -/
theorem triple_loadJournal (id : String)
    (hvalid : ∀ j, s₀.journals id = some j → j.validate codec = .ok ()) :
    Triple (host.machine faults false) I (· = s₀) (loadJournal codec id)
      (fun j s => s₀.journals id = some j ∧ s = s₀)
      (fun _ s => s = s₀ ∧ (faults = true ∨ s₀.journals id = none)) := by
  have hM := host.closed faults
  refine hM.triple_bind (A := fun x s =>
    Answered faults (fun j => s₀.journals id = some j) (s₀.journals id = none) x ∧ s = s₀)
    (hM.triple_ask ?_) fun x => triple_of_pure fun hx => ?_
  · rintro s x s' hI rfl ⟨hx, rfl⟩
    exact ⟨hI, hx, rfl⟩
  · cases x with
    | error e =>
      exact hM.triple_bind (A := fun _ _ => False) (hM.triple_throw fun _ _ hs => ⟨hs, hx⟩)
        fun _ _ _ h => h.elim
    | ok j =>
      have hj : s₀.journals id = some j := hx
      refine hM.triple_bind (A := fun j' s => j' = j ∧ s = s₀)
        (hM.triple_pure fun _ _ hs => ⟨rfl, hs⟩) fun j' => triple_of_pure fun hj' => ?_
      rw [hj', hvalid j hj]
      exact hM.triple_bind (A := fun _ s => s = s₀) (hM.triple_pure fun _ _ hs => hs)
        fun _ => hM.triple_pure fun _ _ hs => ⟨hj, hs⟩

/-- The operation has a journal that is not finished. -/
def Unfinished (s : HostState) (id : String) : Prop :=
  ∃ j, s.journals id = some j ∧ j.stage ≠ .restored

/-- The operations that `select_journals` is after. -/
def Selected (only : Bool) (s : HostState) (id : String) : Prop :=
  (s.journals id).isSome ∧ (only = true → Unfinished s id)

/-- The loop selects the wanted operations of the listing, each once. -/
theorem triple_selectJournalsLoop (hI₀ : HostInv codec host root base s₀) (only : Bool)
    {ids : List String} (hids : ids.Nodup) (hsome : ∀ id ∈ ids, (s₀.journals id).isSome) :
    Triple (host.machine faults false) I (· = s₀)
      (selectJournalsLoop codec only (ids.map .ok))
      (fun sel s => (sel.Nodup ∧ ∀ id, id ∈ sel ↔ id ∈ ids ∧ Selected only s₀ id) ∧ s = s₀)
      (fun _ s => s = s₀ ∧ faults = true) := by
  have hM := host.closed faults
  induction ids with
  | nil => exact hM.triple_pure fun _ _ hs => ⟨by simp, hs⟩
  | cons id rest ih =>
    have hhere := hsome id List.mem_cons_self
    have hrest := ih hids.of_cons fun id' h => hsome id' (List.mem_cons_of_mem _ h)
    have hnew : id ∉ rest := (List.nodup_cons.mp hids).1
    -- What the loop selects from here on, with this entry or without it.
    have hkeep : ∀ sel : List String,
        (sel.Nodup ∧ ∀ id', id' ∈ sel ↔ id' ∈ rest ∧ Selected only s₀ id') →
        (Selected only s₀ id → (id :: sel).Nodup ∧
          ∀ id', id' ∈ id :: sel ↔ id' ∈ id :: rest ∧ Selected only s₀ id') ∧
        (¬ Selected only s₀ id → sel.Nodup ∧
          ∀ id', id' ∈ sel ↔ id' ∈ id :: rest ∧ Selected only s₀ id') := by
      rintro sel ⟨hnodup, hmem⟩
      refine ⟨fun hsel => ⟨List.nodup_cons.mpr ⟨fun h => hnew ((hmem id).mp h).1, hnodup⟩, ?_⟩,
        fun hsel => ⟨hnodup, ?_⟩⟩
      · intro id'
        rw [List.mem_cons, List.mem_cons, hmem]
        constructor
        · rintro (rfl | ⟨hr, hs⟩)
          · exact ⟨Or.inl rfl, hsel⟩
          · exact ⟨Or.inr hr, hs⟩
        · rintro ⟨rfl | hr, hs⟩
          · exact Or.inl rfl
          · exact Or.inr ⟨hr, hs⟩
      · intro id'
        rw [List.mem_cons, hmem]
        constructor
        · rintro ⟨hr, hs⟩
          exact ⟨Or.inr hr, hs⟩
        · rintro ⟨rfl | hr, hs⟩
          · exact absurd hs hsel
          · exact ⟨hr, hs⟩
    rw [List.map_cons, selectJournalsLoop, ioResult_ok_bind]
    refine triple_ite (fun honly => ?_) fun honly => ?_
    · refine hM.triple_bind ((triple_loadJournal id (hI₀.valid id)).conseq (fun _ _ h => h)
        (fun _ _ _ h => h) ?_) fun j => triple_of_pure fun hj => ?_
      · rintro e s _ ⟨hs, hfaults | hnone⟩
        · exact ⟨hs, hfaults⟩
        · rw [hnone] at hhere
          exact nomatch hhere
      · refine hM.triple_bind hrest fun sel => triple_of_pure fun hsel => ?_
        refine hM.triple_pure fun s _ hs => ⟨?_, hs⟩
        by_cases hstage : j.stage = .restored
        · rw [if_pos hstage]
          refine (hkeep sel hsel).2 fun h => ?_
          obtain ⟨j', hj', hstage'⟩ := h.2 honly
          rw [hj, Option.some.injEq] at hj'
          exact hstage' (hj' ▸ hstage)
        · rw [if_neg hstage]
          exact (hkeep sel hsel).1 ⟨hhere, fun _ => ⟨j, hj, hstage⟩⟩
    · refine hM.triple_bind hrest fun sel => triple_of_pure fun hsel => ?_
      exact hM.triple_pure fun s _ hs =>
        ⟨(hkeep sel hsel).1 ⟨hhere, fun h => absurd h honly⟩, hs⟩

/-- A directory entry that cannot be read ends the selection. -/
theorem triple_selectJournalsLoop_error (hI₀ : HostInv codec host root base s₀) (only : Bool)
    {entries : List (Except IoError String)} (herr : ∃ e, .error e ∈ entries) :
    Triple (host.machine faults false) I (· = s₀) (selectJournalsLoop codec only entries)
      (fun _ _ => False) (fun _ s => s = s₀) := by
  have hM := host.closed faults
  induction entries with
  | nil => simp at herr
  | cons entry rest ih =>
    cases entry with
    | error e => exact hM.triple_throw fun _ _ hs => hs
    | ok id =>
      have hrest := ih (by simpa using herr)
      rw [selectJournalsLoop, ioResult_ok_bind]
      refine triple_ite (fun _ => ?_) fun _ => ?_
      · refine hM.triple_bind ((triple_loadJournal id (hI₀.valid id)).conseq (fun _ _ h => h)
          (fun _ _ _ h => h) fun _ _ _ h => h.1) fun j => triple_of_pure fun _ => ?_
        exact hM.triple_bind hrest fun _ _ _ h => h.elim
      · exact hM.triple_bind hrest fun _ _ _ h => h.elim

/-- Without an operation id all the wanted operations are selected. -/
theorem triple_selectJournals_none (hI₀ : HostInv codec host root base s₀) (only : Bool) :
    Triple (host.machine faults false) I (· = s₀) (selectJournals codec none only)
      (fun sel s => (sel.Nodup ∧ ∀ id, id ∈ sel ↔ Selected only s₀ id) ∧ s = s₀)
      (fun _ s => s = s₀ ∧ faults = true) := by
  have hM := host.closed faults
  refine hM.triple_bind (A := fun x s => x = true ∧ s = s₀) (hM.triple_ask ?_)
    fun x => triple_of_pure fun hx => ?_
  · rintro s x s' hI rfl ⟨hx, rfl⟩
    exact ⟨hI, hx, rfl⟩
  rw [if_pos hx]
  refine hM.triple_bind (A := fun x s => Answered faults (Listed faults fun ids =>
      ids.Nodup ∧ ∀ id, id ∈ ids ↔ (s₀.journals id).isSome) False x ∧ s = s₀) (hM.triple_ask ?_)
    fun x => triple_of_pure fun hx => ?_
  · rintro s x s' hI rfl ⟨hx, rfl⟩
    exact ⟨hI, hx, rfl⟩
  cases x with
  | error e =>
    exact hM.triple_bind (A := fun _ _ => False)
      (hM.triple_throw fun _ _ hs => ⟨hs, hx.resolve_right fun h => h⟩) fun _ _ _ h => h.elim
  | ok entries =>
    rw [ioResult_ok_bind]
    rcases hx with ⟨ids, rfl, hnodup, hmem⟩ | ⟨hfaults, herr⟩
    · refine hM.triple_bind (triple_selectJournalsLoop hI₀ only hnodup
        fun id h => (hmem id).mp h) fun sel => triple_of_pure fun hsel => ?_
      refine hM.triple_pure fun s _ hs => ⟨⟨?_, fun id => ?_⟩, hs⟩
      · exact ((List.perm_insertionSort _ _).nodup_iff).mpr hsel.1
      · rw [List.mem_insertionSort, hsel.2, hmem]
        exact ⟨fun h => h.2, fun h => ⟨h.1, h⟩⟩
    · exact hM.triple_bind ((triple_selectJournalsLoop_error hI₀ only herr).conseq
        (fun _ _ h => h) (fun _ _ _ h => h) fun _ _ _ hs => ⟨hs, hfaults⟩) fun _ _ _ h => h.elim

/-- With an operation id at most that operation is selected. -/
theorem triple_selectJournals_some (id : String) (only : Bool) :
    Triple (host.machine faults false) I (· = s₀) (selectJournals codec (some id) only)
      (fun sel s => (sel = [id] ∧ (s₀.journals id).isSome ∨ sel = [] ∧ s₀.journals id = none) ∧
        s = s₀)
      (fun _ s => s = s₀ ∧ validOperationId id = false) := by
  have hM := host.closed faults
  refine hM.triple_bind (A := fun _ s => s = s₀) ?_ fun _ => ?_
  · refine triple_ite (fun _ => hM.triple_pure fun _ _ hs => hs) fun hid => ?_
    exact hM.triple_throw fun _ _ hs => ⟨hs, by simpa using hid⟩
  refine hM.triple_bind (A := fun x s => x = (s₀.journals id).isSome ∧ s = s₀) (hM.triple_ask ?_)
    fun x => triple_of_pure fun hx => triple_ite (fun hyes => ?_) fun hno => ?_
  · rintro s x s' hI rfl ⟨hx, rfl⟩
    exact ⟨hI, hx, rfl⟩
  · exact hM.triple_pure fun _ _ hs => ⟨Or.inl ⟨rfl, hx ▸ hyes⟩, hs⟩
  · rw [hx, Bool.not_eq_true, Option.isSome_eq_false_iff, Option.isNone_iff_eq_none] at hno
    exact hM.triple_pure fun _ _ hs => ⟨Or.inr ⟨rfl, hno⟩, hs⟩

/-- A reconciled journal is the operation's, still not restored. -/
theorem triple_reconcileRuntimeOutcome (hstage : j.stage ≠ .restored) :
    Triple (host.machine faults false) (HostInv codec host root base)
      (Owns codec host root base id j) (reconcileRuntimeOutcome codec id j)
      (fun j' s => j'.stage ≠ .restored ∧ Owns codec host root base id j' s)
      (fun _ _ => faults = true) := by
  have hM := host.closed faults
  refine triple_ite (fun _ => ?_) fun _ => hM.triple_pure fun _ _ h => ⟨hstage, h⟩
  refine hM.triple_bind ((triple_recoverOutcome _).conseq (fun _ _ h => h) (fun _ _ _ h => h)
    fun _ _ _ h => h.2) fun outcome => ?_
  cases outcome with
  | none => exact hM.triple_pure fun _ _ h => ⟨hstage, h⟩
  | some outcome =>
    refine triple_of_state fun s₁ _ hown₁ => Triple.pre ?_ fun s _ hs => hs ▸ hown₁
    refine hM.triple_bind (triple_storeJournal
      (Q := Owns codec host root base id { j with outcome := some (terminalOutcome outcome) })
      hown₁.sound.valid ?_) fun _ => hM.triple_pure fun _ _ h => ⟨hstage, h⟩
    intro s hI hown
    exact (hown.setOutcome _).progress hI hstage

/-- A recovered operation is restored, unless a call has failed. -/
theorem triple_recoverJournal (hI₀ : HostInv codec host root base s₀)
    (hsome : (s₀.journals id).isSome) :
    Triple (host.machine faults false) (HostInv codec host root base) (· = s₀)
      (recoverJournal codec root id) (fun _ s => Unfinished s₀ id → RestoredTo base id s)
      (fun _ _ => Unfinished s₀ id → faults = true) := by
  have hM := host.closed faults
  refine hM.triple_bind ((triple_loadJournal id (hI₀.valid id)).conseq (fun _ _ h => h) (fun _ _ _ h => h) ?_)
    fun j => triple_of_pure fun hj => triple_ite (fun hdone => ?_) fun hstage => ?_
  · rintro e s _ ⟨_, hfaults | hnone⟩ _
    · exact hfaults
    · rw [hnone] at hsome
      exact nomatch hsome
  · have hno : ¬ Unfinished s₀ id := by
      rintro ⟨j', hj', hstage'⟩
      rw [hj, Option.some.injEq] at hj'
      exact hstage' (hj' ▸ hdone)
    exact (triple_cleanupRuntime _).conseq (fun _ _ h => h) (fun _ _ _ _ h => absurd h hno)
      fun _ _ _ _ h => absurd h hno
  · have hown := Owns.of_disk hI₀ hj hstage
    refine hM.triple_bind (triple_readBootId.conseq (fun _ _ h => h) (fun _ _ _ h => h)
      fun _ _ _ h _ => h.2) fun boot => triple_of_pure fun hboot => ?_
    rw [if_neg (not_not.mpr (hboot ▸ hown.sound.boot))]
    refine hM.triple_bind ((triple_reconcileRuntimeOutcome hstage).conseq
      (by rintro _ _ rfl; exact hown) (fun _ _ _ h => h) fun _ _ _ h _ => h)
      fun j' => triple_of_pure fun _ => ?_
    refine hM.triple_bind (triple_restore.conseq (fun _ _ h => h) (fun _ _ _ h => h)
      fun _ _ _ h _ => h) fun _ => ?_
    exact (triple_cleanupRuntime _).conseq (fun _ _ h => h) (fun _ _ _ h _ => h)
      fun _ _ _ h _ => h.2

/-- Every run of `recover` keeps the invariant. One that was asked for the unfinished
operation, or for whichever there is, restores it or has met an I/O error. -/
theorem triple_recover (hI₀ : HostInv codec host root base s₀) (operationId : Option String) :
    Triple (host.machine faults false) (HostInv codec host root base) (· = s₀)
      (recover codec root operationId)
      (fun _ s => ∀ id, (operationId = none ∨ operationId = some id) → Unfinished s₀ id →
        RestoredTo base id s)
      (fun _ _ => ∀ id, (operationId = none ∨ operationId = some id) → Unfinished s₀ id →
        faults = true) := by
  have hM := host.closed faults
  refine hM.triple_bind ((triple_enterStateDirectory true).conseq (fun _ _ h => h)
    (fun _ _ _ h => h) fun _ _ _ h _ _ _ => h.2) fun _ => ?_
  -- What was selected contains the operation that was asked for and only known ones.
  have hselect : Triple (host.machine faults false) (HostInv codec host root base) (· = s₀)
      (selectJournals codec operationId true)
      (fun sel s => ((∀ id, (operationId = none ∨ operationId = some id) → Unfinished s₀ id →
        sel = [id]) ∧ ∀ id, sel = [id] → (s₀.journals id).isSome) ∧ s = s₀)
      (fun _ _ => ∀ id, (operationId = none ∨ operationId = some id) → Unfinished s₀ id →
        faults = true) := by
    cases operationId with
    | none =>
      refine (triple_selectJournals_none hI₀ true).conseq (fun _ _ h => h) ?_
        fun _ _ _ h _ _ _ => h.2
      rintro sel s _ ⟨⟨hnodup, hmem⟩, hs⟩
      refine ⟨⟨fun id _ hun => ?_, fun id hsel => ?_⟩, hs⟩
      · obtain ⟨j, hj, hstage⟩ := hun
        refine List.perm_singleton.mp ((List.perm_ext_iff_of_nodup hnodup
          (List.nodup_singleton id)).mpr fun id' => ?_)
        rw [hmem, List.mem_singleton]
        constructor
        · rintro ⟨_, hun'⟩
          obtain ⟨j', hj', hstage'⟩ := hun' rfl
          exact hI₀.unique id' id j' j hj' hj hstage' hstage
        · rintro rfl
          exact ⟨Option.isSome_iff_exists.mpr ⟨j, hj⟩, fun _ => ⟨j, hj, hstage⟩⟩
      · exact ((hmem id).mp (hsel ▸ List.mem_singleton.mpr rfl)).1
    | some id₀ =>
      refine (triple_selectJournals_some id₀ true).conseq (fun _ _ h => h) ?_ ?_
      · rintro sel s _ ⟨⟨rfl, hsome⟩ | ⟨rfl, hnone⟩, hs⟩
        · refine ⟨⟨fun id hid _ => ?_, fun id hsel => ?_⟩, hs⟩
          · cases hid.resolve_left fun h => nomatch h
            rfl
          · cases hsel
            exact hsome
        · refine ⟨⟨fun id hid hun => ?_, fun _ h => nomatch h⟩, hs⟩
          cases hid.resolve_left fun h => nomatch h
          obtain ⟨j, hj, _⟩ := hun
          rw [hnone] at hj
          exact nomatch hj
      · rintro e s _ ⟨_, hinvalid⟩ id hid ⟨j, hj, _⟩
        cases hid.resolve_left fun h => nomatch h
        rw [(hI₀.sound _ j hj).validId] at hinvalid
        exact nomatch hinvalid
  refine hM.triple_bind hselect fun sel => triple_of_pure fun ⟨hasked, hknown⟩ => ?_
  match sel with
  | [id] =>
    refine (triple_recoverJournal hI₀ (hknown id rfl)).conseq (fun _ _ h => h) ?_ ?_
    · intro _ s _ h id' hid' hun
      cases hasked id' hid' hun
      exact h hun
    · intro _ s _ h id' hid' hun
      cases hasked id' hid' hun
      exact h hun
  | [] => exact hM.triple_throw fun _ _ _ id hid hun => nomatch hasked id hid hun
  | _ :: _ :: _ => exact hM.triple_throw fun _ _ _ id hid hun => nomatch hasked id hid hun

end Snoozer.Benchctl
