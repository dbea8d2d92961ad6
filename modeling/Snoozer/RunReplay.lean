import Snoozer.OperationRecord
import Mathlib.Logic.Equiv.List
import Mathlib.Data.Countable.Basic

/-! A workload is started at most once for an operation, its outcome is recorded once,
and a repeated run only reports what the journal says. -/
namespace Snoozer.Benchctl
open Interactive Fallible Protocol

variable {codec : Codec} {host : Host} {sysfsRoot stateRoot : PathBuf} {s s' : HostState}

/-- One invocation up to any point of it, with I/O errors anywhere, on whatever the host is by then
and while others may write the tree. -/
def InvokedAnywhere (codec : Codec) (sysfsRoot stateRoot : PathBuf) (s s' : HostState) : Prop :=
  ∃ (host : Host) (invocation : Invocation) (q : Prog HostOp HostAns (Except BenchError Unit)),
    Reach (host.machine true true) ((invocation.program codec sysfsRoot stateRoot).run, s) (q, s')

/-- Any sequence of invocations. Between two of them the host may be booted again, and its tree may
have become another one. -/
abbrev AnySession (codec : Codec) (sysfsRoot stateRoot : PathBuf) : HostState → HostState → Prop :=
  Relation.ReflTransGen (InvokedAnywhere codec sysfsRoot stateRoot)

/-- Every journal can be read back. -/
structure Readable (codec : Codec) (s : HostState) : Prop where
  finite : s.FinitelyMany
  valid : ∀ id j, s.journals id = some j → j.validate codec = .ok ()

theorem readable_initial (contents : Sysfs) : Readable codec (.initial contents) where
  finite := ⟨[], List.nodup_nil, fun _ => by simp [HostState.initial]⟩
  valid _ _ hj := nomatch hj

theorem Readable.frame (h : Readable codec s) (hjournals : s'.journals = s.journals) :
    Readable codec s' := by
  refine ⟨?_, ?_⟩
  · unfold HostState.FinitelyMany
    rw [hjournals]
    exact h.finite
  · rw [hjournals]
    exact h.valid

theorem Readable.store (h : Readable codec s) {id : String} {j : Journal}
    (hj : j.validate codec = .ok ()) : Readable codec (s.store id j) where
  finite := h.finite.store id j
  valid id' j' hj' := by
    by_cases hid : id' = id
    · rw [hid, HostState.store_self, Option.some.injEq] at hj'
      rw [← hj']
      exact hj
    · rw [HostState.store_of_ne s hid] at hj'
      exact h.valid id' j' hj'

/-- Journals that pass their check leave the others readable. -/
theorem readable_act (op : HostOp) (s : HostState) (x : HostAns op) (s' : HostState)
    (hop : op.Checked codec) (h : Readable codec s) (hact : recordAct op s x s') :
    Readable codec s' := by
  cases op with
  | writeJournal id j =>
    rcases hact with rfl | ⟨_, rfl⟩
    · exact h.store (hop id j rfl)
    · exact h
  | coordinate request =>
    cases hact
    exact h.frame rfl
  | journalExists id => exact hact.1 ▸ h
  | readJournal id => exact hact.1 ▸ h
  | _ => exact h.frame hact.1

/-- An invocation keeps the record, whatever becomes of the tree meanwhile. -/
theorem invocation_keeps {outcomes : String → Option TerminalOutcome} (invocation : Invocation)
    {q : Prog HostOp HostAns (Except BenchError Unit)} (hrecord : RecordInv outcomes s)
    (hreadable : Readable codec s)
    (hr : Reach (host.machine true true) ((invocation.program codec sysfsRoot stateRoot).run, s)
      (q, s')) :
    RecordInv outcomes s' ∧ Readable codec s' := by
  -- Somebody else writes the tree, never the journals.
  have hknown : ∀ φ, Stable (host.machine true true) (Acquainted outcomes φ) := by
    rintro φ s s' h ⟨_, path, contents, rfl⟩
    exact h.frame rfl rfl
  have hreads : Stable (host.machine true true) (Readable codec) := by
    rintro s s' h ⟨_, path, contents, rfl⟩
    exact h.frame rfl
  have hchecked : Within (HostOp.Checked codec) (invocation.program codec sysfsRoot stateRoot) := by
    cases invocation with
    | run request => exact within_coordinateRun _
    | recover operationId => exact within_recover _ _
  obtain ⟨φ, _, hacquainted⟩ := (obeys_invocation codec sysfsRoot stateRoot invocation).reach hknown
    (fun φ op x φ' s s' hn h hact => acquainted_act hn h (recordAct_of_act hact))
    (acquainted_initial hrecord) hr
  refine ⟨hacquainted.record, ?_⟩
  exact Prog.Within.keeps hreads
    (fun op s x s' hop h hact => readable_act op s x s' hop h (recordAct_of_act hact))
    hchecked hreadable hr

theorem session_keeps {outcomes : String → Option TerminalOutcome} (hrecord : RecordInv outcomes s)
    (hreadable : Readable codec s) (h : AnySession codec sysfsRoot stateRoot s s') :
    RecordInv outcomes s' ∧ Readable codec s' := by
  induction h with
  | refl => exact ⟨hrecord, hreadable⟩
  | tail _ hstep ih =>
    obtain ⟨host, invocation, q, hr⟩ := hstep
    exact invocation_keeps invocation ih.1 ih.2 hr

/-- The outcomes that the journals of a state record. -/
def HostState.outcomes (s : HostState) (id : String) : Option TerminalOutcome :=
  (s.journals id).bind Journal.outcome

theorem RecordInv.rebase {outcomes : String → Option TerminalOutcome} (h : RecordInv outcomes s) :
    RecordInv s.outcomes s where
  named := h.named
  once := h.once
  entered := h.entered
  kept id o ho := by
    obtain ⟨j, hj, hout⟩ := Option.bind_eq_some_iff.mp ho
    exact ⟨j, hj, hout⟩

/-- A recorded outcome stays. -/
theorem outcome_session {outcomes : String → Option TerminalOutcome} (hrecord : RecordInv outcomes s)
    (hreadable : Readable codec s) (h : AnySession codec sysfsRoot stateRoot s s') {id : String}
    {j : Journal} {o : TerminalOutcome} (hj : s.journals id = some j) (ho : j.outcome = some o) :
    ∃ j', s'.journals id = some j' ∧ j'.outcome = some o :=
  (session_keeps hrecord.rebase hreadable h).1.kept id o
    (Option.bind_eq_some_iff.mpr ⟨j, hj, ho⟩)

/-- The order of the CPUs of a request does not matter. -/
theorem coordinateRun_perm (request : RunRequest) {cpus : List ℕ} (h : request.cpus.Perm cpus) :
    coordinateRun codec { request with cpus := cpus } = coordinateRun codec request := by
  have hempty : cpus.isEmpty = request.cpus.isEmpty := by
    rw [Bool.eq_iff_iff, List.isEmpty_iff, List.isEmpty_iff]
    constructor
    · rintro rfl
      exact h.eq_nil
    · intro hnil
      rw [hnil] at h
      exact h.symm.eq_nil
  have hnormal : normalizeCpus cpus = normalizeCpus request.cpus := by
    unfold normalizeCpus
    rw [hempty, sortUnstable_of_perm h]
  unfold coordinateRun
  rw [hnormal]

/-- A lookup that finds a journal. -/
theorem triple_lookupJournal_found {faults : Bool} {I : HostState → Prop} (request : RunRequest)
    {accepted : Acceptance} {j : Journal} (hj : s.journals accepted.operationId = some j)
    (hsame : j.operationId = accepted.operationId) (hvalid : j.validate codec = .ok ())
    (hdigest : Function.Injective (Request.digest codec)) :
    Triple (host.machine faults false) I (· = s) (lookupJournal codec request accepted)
      (fun _ s' => replayResult accepted j = .ok () ∧ s' = s)
      (fun e s' => (faults = true ∨ replayResult accepted j = .error e) ∧ s' = s) := by
  have hM := host.closed faults
  refine hM.triple_bind (A := fun x s' => x = true ∧ s' = s) (hM.triple_ask ?_)
    fun x => triple_of_pure fun hx => ?_
  · rintro s₁ x s₂ hI₁ rfl ⟨hx, rfl⟩
    exact ⟨hI₁, by rw [hx, hj, Option.isSome_some], rfl⟩
  · rw [if_pos hx]
    exact triple_replayJournal hj hsame hvalid hdigest

/-- A replay comes to its end. -/
theorem lookupJournal_completes (hs : s.FinitelyMany) (request : RunRequest)
    {accepted : Acceptance} {j : Journal} (hj : s.journals accepted.operationId = some j) :
    ∃ r s', Reach (host.machine false false) ((lookupJournal codec request accepted).run, s)
      (.ret r, s') := by
  have hcalls : Within (fun _ => True) (replayJournal codec accepted) :=
    within_replayJournal (fun _ _ => trivial) accepted
  obtain ⟨r, s', hr⟩ := hcalls.loopFree.completes (M := host.machine false false)
    (fun op s hs => host.answers op s hs) hs
  have hrun : (lookupJournal codec request accepted).run = .call
      (.journalExists accepted.operationId) fun found : Bool =>
        (if found then replayJournal codec accepted else executeRun codec request accepted).run := rfl
  have hact : host.act false (.journalExists accepted.operationId) s true s :=
    ⟨by rw [hj, Option.isSome_some], rfl⟩
  rw [hrun]
  exact ⟨r, s', .head (.call hact) hr⟩

/-- Over any sequence of invocations, on hosts that may be booted again and change meanwhile: no
workload is started twice, no outcome changes, a run that finds a journal reports from it and
touches nothing, and CPUs have no order. -/
theorem run_once_and_replay (hdigest : Function.Injective (Request.digest codec))
    {contents : Sysfs} (h : AnySession codec sysfsRoot stateRoot (.initial contents) s) :
    (∀ id, s.entered.count id ≤ 1) ∧
    (∀ s' id j o, AnySession codec sysfsRoot stateRoot s s' → s.journals id = some j →
      j.outcome = some o → ∃ j', s'.journals id = some j' ∧ j'.outcome = some o) ∧
    (∀ (host : Host) request request' accepted s₁ j,
      Reach (host.machine true true)
        (((Invocation.run request).program codec sysfsRoot stateRoot).run, s)
        ((lookupJournal codec request' accepted).run, s₁) →
      s₁.journals accepted.operationId = some j →
      (∀ q s₂, Reach (host.machine true false)
        ((lookupJournal codec request' accepted).run, s₁) (q, s₂) → s₂ = s₁) ∧
      (∃ r s₂, Reach (host.machine false false)
        ((lookupJournal codec request' accepted).run, s₁) (.ret r, s₂)) ∧
      ∀ r s₂, Reach (host.machine false false)
        ((lookupJournal codec request' accepted).run, s₁) (.ret r, s₂) →
        r = replayResult accepted j) ∧
    ∀ (request : RunRequest) (cpus : List ℕ), request.cpus.Perm cpus →
      coordinateRun codec { request with cpus := cpus } = coordinateRun codec request := by
  obtain ⟨hrecord, hreadable⟩ :=
    session_keeps (recordInv_initial contents) (readable_initial contents) h
  refine ⟨fun id => List.nodup_iff_count_le_one.mp hrecord.once id, ?_, ?_, ?_⟩
  · intro s' id j o hsession hj ho
    exact outcome_session hrecord hreadable hsession hj ho
  · intro host request request' accepted s₁ j hreach hj
    -- The run has kept the record up to its lookup.
    obtain ⟨hrecord₁, hreadable₁⟩ := invocation_keeps (.run request) hrecord hreadable hreach
    have hsame := hrecord₁.named _ j hj
    have hvalid := hreadable₁.valid _ j hj
    refine ⟨fun q s₂ hr => ?_, lookupJournal_completes hreadable₁.finite request' hj,
      fun r s₂ hr => ?_⟩
    · exact (triple_lookupJournal_found (I := (· = s₁)) request' hj hsame hvalid hdigest).invariant
        rfl rfl hr
    · obtain ⟨_, hends⟩ := (triple_lookupJournal_found (I := fun _ => True) request' hj hsame hvalid
        hdigest).returns trivial rfl hr
      -- Without I/O errors the journal alone decides the answer.
      cases r with
      | ok u => exact hends.1.symm
      | error e => exact (hends.1.resolve_left fun hfaults => nomatch hfaults).symm
  · exact fun request cpus hperm => coordinateRun_perm request hperm

/-- The sample's digest tells requests apart. -/
theorem sampleDigest_injective (requestBytes : Request → Bytes) :
    Function.Injective (sampleCodec requestBytes).hexDigest := by
  intro a b h
  have hlists : a.map (fun b : UInt8 => Char.ofNat b.toNat) =
      b.map (fun b : UInt8 => Char.ofNat b.toNat) := String.ofList_injective h
  refine List.map_injective_iff.mpr (fun x y hxy => ?_) hlists
  have hnat : ∀ z : UInt8, (Char.ofNat z.toNat).toNat = z.toNat := by
    intro z
    have hz : z.toNat.isValidChar := Or.inl (by have := z.toNat_lt; omega)
    rw [Char.ofNat, dif_pos hz]
    rfl
  rw [← UInt8.toNat_inj, ← hnat x, ← hnat y]
  exact congrArg Char.toNat hxy

theorem countable_string : Countable String := by
  have hchar : Countable Char := Function.Injective.countable (f := Char.toNat) fun a b h => by
    rw [← Char.ofNat_toNat a, ← Char.ofNat_toNat b, h]
  exact Function.Injective.countable (f := String.toList) fun a b h => String.toList_inj.mp h

/-- Requests can be numbered, so that a sample codec can write them injectively. -/
theorem countable_request : Countable Request := by
  have hstring := countable_string
  have hpath : Countable PathBuf :=
    Function.Injective.countable (f := fun p : PathBuf => (p.absolute, p.components)) fun a b h => by
      cases a
      cases b
      simpa using h
  have hactor : Countable Actor :=
    Function.Injective.countable (f := fun a : Actor => (a.uid, a.gid)) fun a b h => by
      cases a
      cases b
      simpa using h
  refine Function.Injective.countable (f := fun r : Request => ((r.receipt, r.acceptedReceipt,
    r.receiptDigest, r.acceptedExecutable), r.executableDigest, r.cpus, r.timeoutSeconds,
    r.workload, r.workloadActor)) fun a b h => ?_
  cases a
  cases b
  simpa [and_assoc] using h

/-- The request that the sample run records. -/
def sampleRecorded : Request where
  receipt := sampleRequest.receiptPath
  acceptedReceipt := sampleRequest.stateRoot.join "op.receipt"
  receiptDigest := ""
  acceptedExecutable := sampleRequest.stateRoot.join "op.executable"
  executableDigest := ""
  cpus := [0]
  timeoutSeconds := 0
  workload := []
  workloadActor := ⟨0, 0⟩

/-- Some injective serialization, which takes the sample request to the empty text. -/
noncomputable def sampleRequestBytes (request : Request) : Bytes :=
  if request = sampleRecorded then []
  else List.replicate (countable_request.exists_injective_nat.choose request + 1) 0

/-- The sample's bytes of requests are such a numbering. -/
theorem sampleRequestBytes_injective : Function.Injective sampleRequestBytes := by
  have hnat := countable_request.exists_injective_nat.choose_spec
  intro a b h
  unfold sampleRequestBytes at h
  split at h
  · next ha =>
    split at h
    · next hb => exact ha.trans hb.symm
    · cases h
  · split at h
    · cases h
    · have hlen := congrArg List.length h
      simp only [List.length_replicate, Nat.add_right_cancel_iff] at hlen
      exact hnat hlen

/-- A session on one host that only its invocations write. -/
theorem Session.any (h : Session codec host sysfsRoot stateRoot s s') :
    AnySession codec sysfsRoot stateRoot s s' := by
  induction h with
  | refl => exact .refl
  | tail _ hstep ih =>
    obtain ⟨invocation, q, hr⟩ := hstep
    refine ih.tail ⟨host, invocation, q, ?_⟩
    apply hr.mono
    · exact fun _ _ _ _ hact => hact
    · rintro _ _ ⟨hnobody, _⟩
      cases hnobody

/-- The sample's host after another boot. -/
def rebootedHost : Host := { sampleHost with bootId := "reboot\n" }

/-- The program of the sample run after the reboot, from the start and from its journal lookup. -/
theorem reach_sampleLookup {codec : Codec} {s s₁ : HostState} {accepted : Acceptance}
    (hs : s.Only "op")
    (h : (acceptRequest codec sampleRequest).run.run (rebootedHost.serve "op") 400 s =
      some (.ok accepted, s₁)) :
    Reach (rebootedHost.machine true true)
      (((Invocation.run sampleRequest).program codec sampleRoot sampleRequest.stateRoot).run, s)
      ((lookupJournal codec sampleRequest accepted).run, s₁) := by
  have hreach : Reach (rebootedHost.machine true true) ((acceptRequest codec sampleRequest).run, s)
      (.ret (.ok accepted), s₁) :=
    (reach_of_run_inv (I := (HostState.Only · "op")) (rebootedHost.serve_act "op") 400 _ _ hs h).1
  have hprogram : (Invocation.run sampleRequest).program codec sampleRoot sampleRequest.stateRoot =
      acceptRequest codec sampleRequest >>= lookupJournal codec sampleRequest := by
    rfl
  rw [hprogram]
  exact Reach.bind hreach _

set_option maxRecDepth 4000 in
/-- Run the operation again after its supervisor was lost and the host was booted again: recovery
is required. -/
theorem run_once_and_replay_lostSupervisor :
    Function.Injective (Request.digest (sampleCodec sampleRequestBytes)) ∧
    ∃ s accepted s₁ r s₂, AnySession (sampleCodec sampleRequestBytes) sampleRoot
        sampleRequest.stateRoot (.initial sampleSysfs) s ∧
      s.entered = ["op"] ∧
      Reach (rebootedHost.machine true true)
        (((Invocation.run sampleRequest).program (sampleCodec sampleRequestBytes) sampleRoot
          sampleRequest.stateRoot).run, s)
        ((lookupJournal (sampleCodec sampleRequestBytes) sampleRequest accepted).run, s₁) ∧
      Reach (rebootedHost.machine false false)
        ((lookupJournal (sampleCodec sampleRequestBytes) sampleRequest accepted).run, s₁)
        (.ret r, s₂) ∧ r = .error (.recoveryRequired "op") := by
  have hdigest : Function.Injective (Request.digest (sampleCodec sampleRequestBytes)) :=
    (sampleDigest_injective _).comp sampleRequestBytes_injective
  have hrun : (sampleRun (sampleCodec sampleRequestBytes)).bind (fun first =>
      ((acceptRequest (sampleCodec sampleRequestBytes) sampleRequest).run.run
        (rebootedHost.serve "op") 400 first.2).bind fun second =>
      second.1.toOption.map fun accepted => (first.2.entered, accepted.operationId,
        (second.2.journals "op").map fun j => (decide (j.request = accepted.recorded), j.stage))) =
      some (["op"], "op", some (true, .recoverable)) := by decide +kernel
  obtain ⟨⟨r, s⟩, hfirst, hrest⟩ := Option.bind_eq_some_iff.mp hrun
  obtain ⟨⟨result, s₁⟩, hsecond, hmap⟩ := Option.bind_eq_some_iff.mp hrest
  obtain ⟨accepted, haccepted, hfacts⟩ := Option.map_eq_some_iff.mp hmap
  simp only [Prod.mk.injEq] at hfacts
  obtain ⟨hentered, hid, hjournal⟩ := hfacts
  obtain ⟨j, hj, hsame⟩ := Option.map_eq_some_iff.mp hjournal
  rw [Prod.mk.injEq, decide_eq_true_iff] at hsame
  have hresult : result = .ok accepted := by
    cases result with
    | error e => cases haccepted
    | ok a =>
      cases haccepted
      rfl
  rw [hresult] at hsecond
  obtain ⟨hsession, honly⟩ := session_sampleRun hfirst
  have hreach := reach_sampleLookup honly hsecond
  obtain ⟨_, _, hlookup, _⟩ := run_once_and_replay hdigest hsession.any
  obtain ⟨_, ⟨r', s₂, hr'⟩, hall⟩ :=
    hlookup rebootedHost sampleRequest sampleRequest accepted s₁ j hreach (hid.symm ▸ hj)
  refine ⟨hdigest, s, accepted, s₁, r', s₂, hsession.any, hentered, hreach, hr', ?_⟩
  rw [hall r' s₂ hr', replayResult, if_neg (not_not.mpr hsame.1), hsame.2, if_pos (by decide), hid]

end Snoozer.Benchctl
