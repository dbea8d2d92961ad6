import Snoozer.CpuIdleCoordinate
import Snoozer.CpuIdleTermination

/-! Sequences of invocations on one pair of roots, each of which may stop anywhere,
and what holds of the host after any of them. -/
namespace Snoozer.Benchctl
open Interactive Fallible

/-- `lock_for` lets one invocation run at a time. -/
inductive Invocation where
  | run (request : RunRequest)
  | recover (operationId : Option String)

def Invocation.program (codec : Codec) (sysfsRoot stateRoot : PathBuf) : Invocation → Bench Unit
  | .run request =>
    coordinateRun codec { request with sysfsRoot := sysfsRoot, stateRoot := stateRoot }
  | .recover operationId => Benchctl.recover codec sysfsRoot operationId

/-- One invocation with I/O errors anywhere, up to any point of it. -/
def Invoked (codec : Codec) (host : Host) (sysfsRoot stateRoot : PathBuf) (s s' : HostState) :
    Prop :=
  ∃ (invocation : Invocation) (q : Prog HostOp HostAns (Except BenchError Unit)),
    Reach (host.machine true false) ((invocation.program codec sysfsRoot stateRoot).run, s) (q, s')

abbrev Session (codec : Codec) (host : Host) (sysfsRoot stateRoot : PathBuf) :
    HostState → HostState → Prop :=
  Relation.ReflTransGen (Invoked codec host sysfsRoot stateRoot)

variable {codec : Codec} {host : Host} {sysfsRoot stateRoot : PathBuf} {base : Sysfs}
  {s s' : HostState}

theorem hostInv_invoked (hI : HostInv codec host sysfsRoot base s)
    (h : Invoked codec host sysfsRoot stateRoot s s') : HostInv codec host sysfsRoot base s' := by
  obtain ⟨invocation, q, hr⟩ := h
  cases invocation with
  | run request => exact (triple_coordinateRun _ rfl).invariant hI trivial hr
  | recover operationId => exact (triple_recover hI operationId).invariant hI rfl hr

theorem hostInv_session (hI : HostInv codec host sysfsRoot base s)
    (h : Session codec host sysfsRoot stateRoot s s') : HostInv codec host sysfsRoot base s' := by
  induction h with
  | refl => exact hI
  | tail _ hstep ih => exact hostInv_invoked ih hstep

/-- After any sequence of invocations at most one operation is unfinished and its journal
accounts for every changed value, and an uninterrupted recovery puts everything back. -/
theorem host_crash_recoverable {contents : Sysfs}
    (h : Session codec host sysfsRoot stateRoot (.initial contents) s) :
    (∀ id id', Unfinished s id → Unfinished s id' → id = id') ∧
    (∀ before, (before = contents ∨ ∃ id, s.before id = some before) →
      ∀ p, value s.sysfs p ≠ value before p →
        ∃ id j, s.journals id = some j ∧ j.stage ≠ .restored ∧
          ∃ e ∈ j.entries, e.disablePath = p ∧ value before p = some e.original) ∧
    ∀ id, Unfinished s id → ∀ operationId, (operationId = none ∨ operationId = some id) →
      (∃ r s', Reach (host.machine false false) ((recover codec sysfsRoot operationId).run, s)
        (.ret r, s')) ∧
      ∀ r s', Reach (host.machine false false) ((recover codec sysfsRoot operationId).run, s)
        (.ret r, s') →
        r = .ok () ∧ (∃ j, s'.journals id = some j ∧ j.stage = .restored) ∧
          ∃ before, s.before id = some before ∧ ∀ p, value s'.sysfs p = value before p := by
  have hI := hostInv_session (hostInv_initial contents) h
  refine ⟨?_, ?_, ?_⟩
  · rintro id id' ⟨j, hj, hstage⟩ ⟨j', hj', hstage'⟩
    exact hI.unique id id' j j' hj hj' hstage hstage'
  · intro before hbefore p hp
    have hvalue : value before p = value contents p := by
      rcases hbefore with rfl | ⟨id, hid⟩
      · rfl
      · exact hI.before id before hid p
    rw [hvalue] at hp ⊢
    by_cases hall : ∀ id j, s.journals id = some j → j.stage = .restored
    · exact absurd (hI.clean hall p) hp
    · simp only [not_forall] at hall
      obtain ⟨id, j, hj, hstage⟩ := hall
      rcases hI.accounted id j hj hstage p with hval | ⟨e, he, rfl, _⟩
      · exact absurd hval hp
      · exact ⟨id, j, hj, hstage, e, he, rfl, (hI.sound id j hj).inventoried.original he⟩
  · intro id hun operationId hasked
    refine ⟨recover_completes host sysfsRoot operationId hI.finite, fun r s' hr => ?_⟩
    obtain ⟨_, hends⟩ := (triple_recover hI operationId).returns hI rfl hr
    cases r with
    | error e => exact absurd (hends id hasked hun) (by decide)
    | ok u =>
      obtain ⟨hjournal, hvalues⟩ := hends id hasked hun
      obtain ⟨j, hj, _⟩ := hun
      obtain ⟨before, hbefore⟩ := Option.isSome_iff_exists.mp
        (hI.began id (Option.isSome_iff_exists.mpr ⟨j, hj⟩))
      refine ⟨rfl, hjournal, before, hbefore, fun p => ?_⟩
      rw [hvalues, hI.before id before hbefore]

def sampleReceipt : BuildReceipt where
  version := receiptVersion
  buildId := ""
  manifestPath := ⟨true, ["repo", "Cargo.toml"]⟩
  repository := ⟨true, ["repo"]⟩
  sourceCommit := "c0ffee"
  sourceClean := true
  lockfilePath := ⟨true, ["repo", "Cargo.lock"]⟩
  lockfileSha256 := "0"
  packageId := "snoozer"
  bench := "wake_latency"
  features := []
  profile := "bench"
  rustc := "rustc"
  rustupToolchain := "stable"
  targetTriple := "x86_64"
  benchctlVersion := "0.1.0"
  benchctlExecutableSha256 := ""
  executable := ⟨true, ["repo", "bench"]⟩
  executableSha256 := ""
  builtUnixMillis := 0

/-- Files are hashed to themselves and hold one receipt. -/
def sampleCodec (requestBytes : Request → Bytes) : Codec where
  hexDigest bytes := String.ofList (bytes.map fun b => Char.ofNat b.toNat)
  requestBytes := requestBytes
  parseReceipt _ := .ok sampleReceipt
  identityBytes _ := []
  packageVersion := "0.1.0"

def sampleRoot : PathBuf := ⟨true, ["sys"]⟩

def sampleTree : PathBuf := ⟨true, ["sys", "cpu0", "cpuidle"]⟩

def sampleHost : Host where
  symlink _ := some false
  listing p := if p = sampleTree then some ["state0", "state1", "state2"] else none
  bootId := "boot\n"
  uid := 0

/-- Nothing is disabled at first. -/
def sampleSysfs (p : PathBuf) : Option String :=
  if p = (sampleTree.join "state0").join "name" then some "POLL\n"
  else if p = (sampleTree.join "state1").join "name" then some "C1\n"
  else if p = (sampleTree.join "state2").join "name" then some "C6\n"
  else if p.components.getLast? = some "disable" then some "0\n"
  else none

def sampleRequest : RunRequest where
  operationId := some "op"
  receiptPath := ⟨true, ["receipt"]⟩
  cpus := [0]
  timeout := 10
  workload := []
  sysfsRoot := sampleRoot
  stateRoot := ⟨true, ["state"]⟩
  clientPid := none

def sampleRun (codec : Codec) : Option (Except BenchError Unit × HostState) :=
  (coordinateRun codec sampleRequest).run.run (sampleHost.serve "op") 400 (.initial sampleSysfs)

theorem reach_sampleRun {codec : Codec} {r : Except BenchError Unit} {s : HostState}
    (h : sampleRun codec = some (r, s)) :
    Reach (sampleHost.machine true false)
      ((coordinateRun codec sampleRequest).run, .initial sampleSysfs) (.ret r, s) ∧ s.Only "op" :=
  reach_of_run_inv (I := (HostState.Only · "op")) (sampleHost.serve_act "op") 400 _ _
    (fun _ _ => rfl) h

theorem session_sampleRun {codec : Codec} {r : Except BenchError Unit} {s : HostState}
    (h : sampleRun codec = some (r, s)) :
    Session codec sampleHost sampleRoot sampleRequest.stateRoot (.initial sampleSysfs) s ∧
      s.Only "op" :=
  ⟨.single ⟨.run sampleRequest, _, (reach_sampleRun h).1⟩, (reach_sampleRun h).2⟩

set_option maxRecDepth 4000 in
/-- The supervisor is lost and the deep state stays disabled; a recovery enables it. -/
theorem host_crash_recoverable_lostSupervisor :
    ∃ s, Unfinished s "op" ∧
      value s.sysfs ((sampleTree.join "state2").join "disable") = some "1" ∧
      ∃ r s', Reach (sampleHost.machine false false)
        ((recover (sampleCodec fun _ => []) sampleRoot none).run, s) (.ret r, s') ∧
        r = .ok () ∧ ∃ before, s.before "op" = some before ∧
          ∀ p, value s'.sysfs p = value before p := by
  have hrun : (sampleRun (sampleCodec fun _ => [])).map (fun result =>
      (value result.2.sysfs ((sampleTree.join "state2").join "disable"),
        (result.2.journals "op").map Journal.stage)) =
      some (some "1", some .recoverable) := by decide +kernel
  obtain ⟨⟨r, s⟩, hs, hresult⟩ := Option.map_eq_some_iff.mp hrun
  rw [Prod.mk.injEq] at hresult
  obtain ⟨j, hj, hstage⟩ := Option.map_eq_some_iff.mp hresult.2
  have hun : Unfinished s "op" := ⟨j, hj, by rw [hstage]; decide⟩
  obtain ⟨_, _, hrecover⟩ := host_crash_recoverable (session_sampleRun hs).1
  obtain ⟨⟨r', s', hr'⟩, hall⟩ := hrecover "op" hun none (Or.inl rfl)
  obtain ⟨hok, _, hback⟩ := hall r' s' hr'
  exact ⟨s, hun, hresult.1, r', s', hr', hok, hback⟩

end Snoozer.Benchctl
