import Snoozer.InvocationRuns

/-! The record of the operations: which journals there are and which workloads were started.
Whatever else becomes of the host, an invocation that obeys its protocol starts no workload a
second time and takes no recorded outcome back. -/
namespace Snoozer.Benchctl
open Interactive Fallible Protocol InvocationPhase

/-- What a call can do to the record, and what its answer says of it. -/
def recordAct : (op : HostOp) → HostState → HostAns op → HostState → Prop
  | .writeJournal id j, s, x, s' => s' = s.store id j ∨ x.isOk = false ∧ s' = s
  | .coordinate request, s, _, s' => s' = s.enter request.operationId
  | .journalExists id, s, x, s' => s' = s ∧ (x = false → s.journals id = none)
  | .readJournal id, s, x, s' => s' = s ∧ ∀ j, x = .ok j → s.journals id = some j
  | _, s, _, s' => s'.journals = s.journals ∧ s'.entered = s.entered

theorem recordAct_of_act {host : Host} {faults : Bool} {op : HostOp} {s s' : HostState}
    {x : HostAns op} (h : host.act faults op s x s') : recordAct op s x s' := by
  cases op with
  | writeJournal id j =>
    cases x with
    | ok u => exact Or.inl h
    | error e => exact h.2.elim (fun hsame => Or.inr ⟨rfl, hsame⟩) Or.inl
  | coordinate request => exact h
  | journalExists id =>
    refine ⟨h.2, fun hx => ?_⟩
    have hnone : (s.journals id).isSome = false := h.1.symm.trans hx
    rwa [Option.isSome_eq_false_iff, Option.isNone_iff_eq_none] at hnone
  | readJournal id =>
    refine ⟨h.2, ?_⟩
    rintro j rfl
    exact h.1
  | _ => exact act_keeps_journals h (fun _ _ hop => nomatch hop) fun _ hop => nomatch hop

/-- What is true of the record at any time. The given outcomes have been recorded before. -/
structure RecordInv (outcomes : String → Option TerminalOutcome) (s : HostState) : Prop where
  named : ∀ id j, s.journals id = some j → j.operationId = id
  once : s.entered.Nodup
  entered : ∀ id ∈ s.entered, (s.journals id).isSome
  kept : ∀ id o, outcomes id = some o → ∃ j, s.journals id = some j ∧ j.outcome = some o

/-- What an invocation has learned of the record is still true. -/
structure Acquainted (outcomes : String → Option TerminalOutcome) (φ : InvocationPhase)
    (s : HostState) : Prop where
  record : RecordInv outcomes s
  holds : ∀ id j, φ.Holds id j → s.journals id = some j
  absent : ∀ id ∈ φ.absent, φ.record = .untouched → s.journals id = none
  fresh : ∀ id ∈ φ.absent, φ.supervised = none → id ∉ s.entered

variable {outcomes : String → Option TerminalOutcome} {φ φ' : InvocationPhase} {s s' : HostState}
  {id : String} {j j' : Journal}

theorem recordInv_initial (contents : Sysfs) : RecordInv (fun _ => none) (.initial contents) where
  named _ _ h := nomatch h
  once := List.nodup_nil
  entered _ h := nomatch h
  kept _ _ h := nomatch h

theorem acquainted_initial (h : RecordInv outcomes s) : Acquainted outcomes .initial s where
  record := h
  holds id j hholds := by
    rcases hholds with h | ⟨_, h⟩
    · exact nomatch h
    · exact nomatch h
  absent _ h := nomatch h
  fresh _ h := nomatch h

theorem InvocationPhase.Extends.keeps_outcome (h : φ.Extends j j') {o : TerminalOutcome}
    (ho : j.outcome = some o) : j'.outcome = some o := by
  cases h with
  | outcome o' _ hnone => exact nomatch hnone.symm.trans ho
  | finished o' a a' millis millis' _ hnone => exact nomatch hnone.symm.trans ho
  | _ => exact ho

/-- A permitted store names its operation and takes no outcome back. -/
theorem recordInv_store (h : Acquainted outcomes φ s) (hmay : φ.MayStore id j) :
    RecordInv outcomes (s.store id j) where
  named id' j' hj' := by
    by_cases hid : id' = id
    · rw [hid, HostState.store_self, Option.some.injEq] at hj'
      rw [← hj', hid]
      cases hmay with
      | create _ _ _ hsame _ _ => exact hsame
      | @extend j₀ _ _ hholds _ hext =>
        exact hext.appends.2.1.trans (h.record.named id j₀ (h.holds id j₀ hholds))
    · rw [HostState.store_of_ne s hid] at hj'
      exact h.record.named id' j' hj'
  once := h.record.once
  entered id' hid' := by
    by_cases hid : id' = id
    · rw [hid, HostState.store_self]
      rfl
    · rw [HostState.store_of_ne s hid]
      exact h.record.entered id' hid'
  kept id' o ho := by
    obtain ⟨d, hd, hout⟩ := h.record.kept id' o ho
    by_cases hid : id' = id
    · subst hid
      refine ⟨j, HostState.store_self .., ?_⟩
      cases hmay with
      | create _ huntouched habsent _ _ _ =>
        -- Only a missing journal is made, and an outcome stands in one that is there.
        rw [h.absent id' habsent huntouched] at hd
        exact nomatch hd
      | @extend j₀ _ _ hholds _ hext =>
        have hj₀ : j₀ = d := Option.some.inj ((h.holds id' j₀ hholds).symm.trans hd)
        exact hext.keeps_outcome (hj₀ ▸ hout)
    · exact ⟨d, (HostState.store_of_ne s hid j).trans hd, hout⟩

theorem RecordInv.frame (h : RecordInv outcomes s) (hjournals : s'.journals = s.journals)
    (hentered : s'.entered = s.entered) : RecordInv outcomes s' := by
  refine ⟨?_, ?_, ?_, ?_⟩
  · rw [hjournals]
    exact h.named
  · rw [hentered]
    exact h.once
  · rw [hentered, hjournals]
    exact h.entered
  · rw [hjournals]
    exact h.kept

theorem Acquainted.frame (h : Acquainted outcomes φ s) (hjournals : s'.journals = s.journals)
    (hentered : s'.entered = s.entered) : Acquainted outcomes φ s' := by
  refine ⟨h.record.frame hjournals hentered, ?_, ?_, ?_⟩
  · rw [hjournals]
    exact h.holds
  · rw [hjournals]
    exact h.absent
  · rw [hentered]
    exact h.fresh

/-- The phase changes in a way that the record need not know of. -/
theorem Acquainted.unseen (h : Acquainted outcomes φ s) (hrecord : φ'.record = φ.record)
    (hseen : φ'.seen = φ.seen) (habsent : φ'.absent = φ.absent)
    (hsupervised : φ'.supervised = φ.supervised) : Acquainted outcomes φ' s := by
  refine ⟨h.record, ?_, ?_, ?_⟩
  · unfold InvocationPhase.Holds
    rw [hrecord, hseen]
    exact h.holds
  · rw [habsent, hrecord]
    exact h.absent
  · rw [habsent, hsupervised]
    exact h.fresh

/-- An invocation that stores a journal knows it, or is unsure when the call has failed. -/
theorem Acquainted.stored (h : Acquainted outcomes φ s) (hmay : φ.MayStore id j) (x : Bool) :
    Acquainted outcomes { φ with record := if x then .stored id j else .unsure }
      (s.store id j) where
  record := recordInv_store h hmay
  holds id' j' hholds := by
    cases x with
    | true =>
      rcases hholds with hrecord | ⟨hrecord, _⟩
      · cases hrecord
        exact HostState.store_self ..
      · exact nomatch hrecord
    | false =>
      -- The call has failed, so the phase holds no journal any more.
      rcases hholds with hrecord | ⟨hrecord, _⟩
      · exact nomatch hrecord
      · exact nomatch hrecord
  absent id' _ hrecord := by
    cases x with
    | true => exact nomatch hrecord
    | false => exact nomatch hrecord
  fresh := h.fresh

theorem Acquainted.unsure (h : Acquainted outcomes φ s) :
    Acquainted outcomes { φ with record := .unsure } s where
  record := h.record
  holds id j hholds := by
    rcases hholds with h | ⟨h, _⟩
    · exact nomatch h
    · exact nomatch h
  absent _ _ h := nomatch h
  fresh := h.fresh

/-- A journal that was not found is known to be missing, and its workload was never started. -/
theorem Acquainted.lookedUp (h : Acquainted outcomes φ s) (hnone : s.journals id = none) :
    Acquainted outcomes { φ with absent := id :: φ.absent } s where
  record := h.record
  holds := h.holds
  absent id' hid' hrecord := by
    rcases List.mem_cons.mp hid' with rfl | hid'
    · exact hnone
    · exact h.absent id' hid' hrecord
  fresh id' hid' hsupervised hentered := by
    rcases List.mem_cons.mp hid' with rfl | hid'
    · have hsome := h.record.entered id' hentered
      rw [hnone] at hsome
      exact nomatch hsome
    · exact h.fresh id' hid' hsupervised hentered

theorem Acquainted.seen (h : Acquainted outcomes φ s) (hj : s.journals id = some j) :
    Acquainted outcomes { φ with seen := (id, j) :: φ.seen } s where
  record := h.record
  holds id' j' hholds := by
    rcases hholds with hrecord | ⟨hrecord, hmem⟩
    · exact h.holds id' j' (Or.inl hrecord)
    · rcases List.mem_cons.mp hmem with heq | hmem
      · cases heq
        exact hj
      · exact h.holds id' j' (Or.inr ⟨hrecord, hmem⟩)
  absent := h.absent
  fresh := h.fresh

/-- The supervisor is entered for an operation that was not entered before. -/
theorem Acquainted.entered (h : Acquainted outcomes φ s) {request : CoordinateRequest}
    (hmay : φ.MaySupervise request) (x : Bool) :
    Acquainted outcomes { φ with supervised := some x } (s.enter request.operationId) := by
  obtain ⟨_, _, hnever, hnew, j, hrecord, _, _, _⟩ := hmay
  -- The operation had no journal when this invocation looked for it.
  have hfresh : request.operationId ∉ s.entered := h.fresh _ hnew hnever
  have hj : s.journals request.operationId = some j := h.holds _ _ (Or.inl hrecord)
  refine ⟨⟨h.record.named, ?_, ?_, h.record.kept⟩, h.holds, h.absent, fun _ _ hnone => nomatch hnone⟩
  · refine List.nodup_append.mpr ⟨h.record.once, List.nodup_singleton _, fun a ha b hb => ?_⟩
    rw [List.mem_singleton.mp hb]
    rintro rfl
    exact hfresh ha
  · intro id hid
    rcases List.mem_append.mp hid with hid | hid
    · exact h.record.entered id hid
    · rw [List.mem_singleton.mp hid]
      exact Option.isSome_iff_exists.mpr ⟨j, hj⟩

/-- A call that the protocol permits keeps what the invocation knows of the record. -/
theorem acquainted_act {op : HostOp} {x : HostAns op}
    (hn : invocationProtocol.next φ op x = some φ') (h : Acquainted outcomes φ s)
    (hact : recordAct op s x s') : Acquainted outcomes φ' s' := by
  cases op with
  | writeJournal id j =>
    simp only [invocationProtocol] at hn
    split at hn
    · next hmay =>
      cases hn
      -- A store that reports an error may have happened all the same.
      rcases hact with rfl | ⟨hx, rfl⟩
      · exact h.stored hmay x.isOk
      · rw [hx]
        exact h.unsure
    · cases hn
  | coordinate request =>
    simp only [invocationProtocol] at hn
    split at hn
    · next hmay =>
      cases hn
      cases hact
      exact h.entered hmay _
    · cases hn
  | journalExists id =>
    have hn : some (if φ.locked && !x then { φ with absent := id :: φ.absent } else φ) =
        some φ' := hn
    cases hn
    obtain ⟨rfl, hnone⟩ := hact
    split
    · next hx =>
      apply h.lookedUp
      apply hnone
      simpa using (Bool.and_eq_true_iff.mp hx).2
    · exact h
  | readJournal id =>
    obtain ⟨rfl, hfound⟩ := hact
    cases hn
    split
    · next j _ => exact h.seen (hfound j rfl)
    · exact h
  | readOutcome id =>
    have h' := h.frame hact.1 hact.2
    cases hn
    split
    · exact h'.unseen rfl rfl rfl rfl
    · exact h'
  | readStatus id =>
    have h' := h.frame hact.1 hact.2
    cases hn
    split
    · exact h'.unseen rfl rfl rfl rfl
    · exact h'
  | readToString path =>
    have h' := h.frame hact.1 hact.2
    cases hn
    split
    · exact h'.unseen rfl rfl rfl rfl
    · exact h'
  | write path contents =>
    have h' := h.frame hact.1 hact.2
    simp only [invocationProtocol] at hn
    split at hn
    · cases hn
      exact h'.unseen rfl rfl rfl rfl
    · cases hn
  | lockFor wait =>
    have h' := h.frame hact.1 hact.2
    cases hn
    exact h'.unseen rfl rfl rfl rfl
  | requireInactive =>
    have h' := h.frame hact.1 hact.2
    simp only [invocationProtocol] at hn
    split at hn
    · cases hn
      exact h'.unseen rfl rfl rfl rfl
    · cases hn
  | _ =>
    have h' := h.frame hact.1 hact.2
    cases hn
    exact h'

end Snoozer.Benchctl
