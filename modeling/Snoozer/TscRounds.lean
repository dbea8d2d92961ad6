import Snoozer.TscHandshake

/-! The rounds of the handshake. Both threads are checked against protocols of their calls; the
readings then pair up into rounds, each with the worker's stamp between the controller's two. -/
namespace Snoozer
open Interactive Interactive.Prog Interactive.Fallible

/-- What the controller has seen of one round. -/
structure RoundStamps where
  before : Stamp
  remoteCycles : ℕ
  after : Stamp

/-- The round raises no suspicion of a migration. -/
def RoundStamps.Accepted (controllerAux : ℕ) (round : RoundStamps) : Prop :=
  round.before.auxiliary = controllerAux ∧ round.after.auxiliary = controllerAux ∧
    round.before.cycles ≤ round.after.cycles

def BestRound.improveWith (best : BestRound) (round : RoundStamps) : BestRound :=
  best.improve round.before.cycles round.remoteCycles round.after.cycles

inductive ControllerStage where
  | between
  | stamped (before : Stamp)
  | requested (before : Stamp)
  | answered (before : Stamp)
  | loaded (before : Stamp) (remoteCycles : ℕ)
  | joined
  | checked
  | aborted

/-- The next stage of the round that follows `done` others, or the round itself. -/
def ControllerStage.next (done : ℕ) :
    ControllerStage → (op : TscOp) → TscAns op → Option (ControllerStage ⊕ RoundStamps)
  | .between, .stamp, (x : Stamp) => some (.inl (.stamped x))
  | .stamped before, .storeRequest sequence, _ =>
    if sequence = done + 1 then some (.inl (.requested before)) else none
  | .requested before, .loadResponse, (x : ℕ) =>
    some (.inl (if x = done + 1 then .answered before else .requested before))
  | .requested before, .spin, _ => some (.inl (.requested before))
  | .answered before, .loadRemoteCycles, (x : ℕ) => some (.inl (.loaded before x))
  | .loaded before remoteCycles, .stamp, (x : Stamp) => some (.inr ⟨before, remoteCycles, x⟩)
  | .between, .join, (x : Option (Except String Unit)) =>
    some (.inl (match x with
      | some (.ok ()) => .joined
      | _ => .aborted))
  | .joined, .loadFailed, (x : Bool) => some (.inl (if x then .aborted else .checked))
  | _, _, _ => none

inductive ControllerPhase where
  | starting
  | measuring (reference : Stamp) (rounds : List RoundStamps) (stage : ControllerStage)

def ControllerPhase.moved (reference : Stamp) (rounds : List RoundStamps) :
    ControllerStage ⊕ RoundStamps → ControllerPhase
  | .inl stage => measuring reference rounds stage
  | .inr round => measuring reference (rounds ++ [round]) .between

def controllerProtocol : Protocol TscOp TscAns ControllerPhase where
  next
    | .starting, .stamp, (x : Stamp) => some (.measuring x [] .between)
    | .starting, .loadReady, _ | .starting, .workerFinished, _
    | .starting, .startupElapsed, _ | .starting, .spin, _ => some .starting
    | .measuring reference rounds stage, op, x =>
      (stage.next rounds.length op x).map (ControllerPhase.moved reference rounds)
    | _, _, _ => none

section Controller

variable {reference : Stamp} {rounds : List RoundStamps} {best : BestRound}

/-- The result so far: the rounds are those of `new`, after the ones before. -/
def Measured (reference : Stamp) (rounds : List RoundStamps) (best : BestRound) (n : ℕ)
    (best' : BestRound) (φ : ControllerPhase) : Prop :=
  ∃ new, φ = .measuring reference (rounds ++ new) .between ∧ new.length = n ∧
    (∀ r ∈ new, r.Accepted reference.auxiliary) ∧ best' = new.foldl BestRound.improveWith best

theorem obeys_stage {stage : ControllerStage} (op : TscOp) {next : TscAns op → ControllerStage}
    (h : ∀ x, stage.next rounds.length op x = some (.inl (next x))) :
    controllerProtocol.Obeys (· = .measuring reference rounds stage)
      (ask op : TscFallible (TscAns op))
      (fun x φ => φ = .measuring reference rounds (next x)) fun _ _ => True := by
  apply Protocol.obeys_ask
  rintro _ x rfl
  refine ⟨_, ?_, rfl⟩
  change (stage.next rounds.length op x).map _ = _
  rw [h x]
  rfl

/-- Waiting for the worker obeys the protocol of the controller. -/
theorem obeys_awaitReady :
    controllerProtocol.Obeys (· = .starting) awaitReady (fun _ φ => φ = .starting)
      fun _ _ => True := by
  have hstays : ∀ op : TscOp, (∀ x, controllerProtocol.next .starting op x = some .starting) →
      controllerProtocol.Obeys (· = .starting) (ask op : TscFallible (TscAns op))
        (fun _ φ => φ = .starting) fun _ _ => True := by
    intro op hop
    apply Protocol.obeys_ask
    rintro _ x rfl
    exact ⟨_, hop x, rfl⟩
  apply Protocol.Obeys.iterate
  apply (hstays .loadReady fun _ => rfl).bind
  intro ready
  apply Protocol.obeys_ite
  · intro _
    exact Protocol.obeys_pure fun φ hφ => ⟨fun h => (nomatch h), fun _ _ => hφ⟩
  intro _
  apply (hstays .workerFinished fun _ => rfl).bind
  intro finished
  apply Protocol.obeys_ite
  · exact fun _ => Protocol.obeys_throw fun _ _ => trivial
  intro _
  apply (hstays .startupElapsed fun _ => rfl).bind
  intro elapsed
  apply Protocol.obeys_ite
  · exact fun _ => Protocol.obeys_throw fun _ _ => trivial
  intro _
  apply (hstays .spin fun _ => rfl).bind
  intro _
  exact Protocol.obeys_pure fun φ hφ => ⟨fun _ => hφ, fun _ h => nomatch h⟩

/-- Waiting for the response ends with the answered round. -/
theorem obeys_awaitResponse {before : Stamp} :
    controllerProtocol.Obeys (· = .measuring reference rounds (.requested before))
      (awaitResponse (rounds.length + 1))
      (fun _ φ => φ = .measuring reference rounds (.answered before)) fun _ _ => True := by
  apply Protocol.Obeys.iterate
  apply (obeys_stage .loadResponse fun _ => rfl).bind
  intro response
  apply Protocol.obeys_ite
  · intro h
    have hspin : controllerProtocol.Obeys (· = .measuring reference rounds (.requested before))
        (ask TscOp.spin : TscFallible Unit)
        (fun _ φ => φ = .measuring reference rounds (.requested before)) fun _ _ => True :=
      obeys_stage .spin fun _ => rfl
    rw [if_neg h]
    apply hspin.bind
    intro _
    exact Protocol.obeys_pure fun φ hφ => ⟨fun _ => hφ, fun _ h => nomatch h⟩
  · intro h
    rw [if_pos (not_not.mp h)]
    exact Protocol.obeys_pure fun φ hφ => ⟨fun h => (nomatch h), fun _ _ => hφ⟩

/-- One round is measured and may improve the best one. -/
theorem obeys_measureRound :
    controllerProtocol.Obeys (· = .measuring reference rounds .between)
      (measureRound reference.auxiliary (rounds.length + 1) best)
      (Measured reference rounds best 1) fun _ _ => True := by
  apply (obeys_stage .stamp fun _ => rfl).bind
  intro before
  have hrequest : controllerProtocol.Obeys (· = .measuring reference rounds (.stamped before))
      (ask (TscOp.storeRequest (rounds.length + 1)) : TscFallible Unit)
      (fun _ φ => φ = .measuring reference rounds (.requested before)) fun _ _ => True :=
    obeys_stage (.storeRequest (rounds.length + 1)) fun _ => if_pos rfl
  apply hrequest.bind
  intro _
  apply obeys_awaitResponse.bind
  intro _
  apply (obeys_stage .loadRemoteCycles fun _ => rfl).bind
  intro remoteCycles
  have hafter : controllerProtocol.Obeys
      (· = .measuring reference rounds (.loaded before remoteCycles))
      (ask TscOp.stamp : TscFallible (TscAns .stamp))
      (fun after φ => φ = .measuring reference (rounds ++ [⟨before, remoteCycles, after⟩]) .between)
      fun _ _ => True := by
    apply Protocol.obeys_ask
    rintro _ x rfl
    exact ⟨_, rfl, rfl⟩
  apply hafter.bind
  intro after
  apply Protocol.obeys_ite
  · exact fun _ => Protocol.obeys_throw fun _ _ => trivial
  · intro h
    push Not at h
    apply Protocol.obeys_pure
    rintro _ rfl
    refine ⟨[⟨before, remoteCycles, after⟩], rfl, rfl, ?_, rfl⟩
    intro r hr
    rw [List.mem_singleton] at hr
    subst hr
    exact h

/-- So are all the rounds. -/
theorem obeys_measureRounds (n : ℕ) :
    controllerProtocol.Obeys (· = .measuring reference rounds .between)
      (measureRounds reference.auxiliary n (rounds.length + 1) best)
      (Measured reference rounds best n) fun _ _ => True := by
  induction n generalizing rounds best with
  | zero =>
    apply Protocol.obeys_pure
    rintro _ rfl
    exact ⟨[], by rw [List.append_nil], rfl, fun r hr => (nomatch hr), rfl⟩
  | succ n ih =>
    apply obeys_measureRound.bind
    intro best'
    apply Protocol.obeys_of_phase
    rintro _ ⟨new, rfl, hlength, haccepted, rfl⟩
    have hnext : controllerProtocol.Obeys (· = .measuring reference (rounds ++ new) .between)
        (measureRounds reference.auxiliary n ((rounds ++ new).length + 1)
          (new.foldl BestRound.improveWith best))
        (Measured reference (rounds ++ new) (new.foldl BestRound.improveWith best) n)
        fun _ _ => True := ih
    rw [List.length_append, hlength] at hnext
    apply hnext.conseq (fun _ h => h)
    · rintro _ _ ⟨rest, rfl, rfl, hrest, rfl⟩
      refine ⟨new ++ rest, by rw [List.append_assoc], ?_, ?_, by rw [List.foldl_append]⟩
      · rw [List.length_append, hlength, Nat.add_comm]
      · intro r hr
        exact (List.mem_append.mp hr).elim (haccepted r) (hrest r)
    · exact fun _ _ h => h

/-- What an estimate stands for. -/
def Estimated (samples : ℕ) (result : ℤ × ℕ) (φ : ControllerPhase) : Prop :=
  ∃ reference rounds, φ = .measuring reference rounds .checked ∧ rounds.length = samples ∧
    (∀ r ∈ rounds, r.Accepted reference.auxiliary) ∧
    (-2 ^ 63 ≤ result.1 ∧ result.1 < 2 ^ 63) ∧
    result = ((rounds.foldl BestRound.improveWith .initial).offset,
      (rounds.foldl BestRound.improveWith .initial).roundTrip / 2)

/-- The whole estimate obeys the protocol of the controller. -/
theorem obeys_estimateRemoteTscOffset (samples : ℕ) :
    controllerProtocol.Obeys (· = .starting) (estimateRemoteTscOffset samples)
      (Estimated samples) fun _ _ => True := by
  apply obeys_awaitReady.bind
  intro _
  have hreference : controllerProtocol.Obeys (· = .starting) (ask TscOp.stamp : TscFallible (TscAns .stamp))
      (fun x φ => φ = .measuring x [] .between) fun _ _ => True := by
    apply Protocol.obeys_ask
    rintro _ x rfl
    exact ⟨_, rfl, rfl⟩
  apply hreference.bind
  intro reference
  have hmeasure : controllerProtocol.Obeys (· = .measuring reference [] .between)
      (measureRounds reference.auxiliary samples 1 .initial)
      (Measured reference [] .initial samples) fun _ _ => True := obeys_measureRounds samples
  apply hmeasure.bind
  intro best
  apply Protocol.obeys_of_phase
  rintro _ ⟨rounds, rfl, hlength, haccepted, rfl⟩
  rw [List.nil_append]
  apply (obeys_stage .join fun _ => rfl).bind
  rintro (_ | e | _)
  · exact Protocol.obeys_throw fun _ _ => trivial
  · exact Protocol.obeys_throw fun _ _ => trivial
  apply (obeys_stage .loadFailed fun _ => rfl).bind
  intro failed
  apply Protocol.obeys_ite
  · exact fun _ => Protocol.obeys_throw fun _ _ => trivial
  intro hfailed
  rw [if_neg hfailed]
  unfold offsetToI64
  by_cases hfits : -2 ^ 63 ≤ (rounds.foldl BestRound.improveWith .initial).offset ∧
      (rounds.foldl BestRound.improveWith .initial).offset < 2 ^ 63
  · rw [if_pos hfits]
    apply Protocol.obeys_pure
    rintro _ rfl
    exact ⟨reference, rounds, rfl, hlength, haccepted, hfits, rfl⟩
  · rw [if_neg hfits]
    exact Protocol.obeys_throw fun _ _ => trivial

end Controller

/-- A stamp of another processor is noted before it is handed over. -/
inductive WorkerStage where
  | awaiting
  | requested
  | stamped (x : Stamp) (noted : Bool)
  | stored (x : Stamp)
  | returned

/-- The next stage of the round that follows `done` others, or the stamp it has served. -/
def WorkerStage.next (expectedAux done : ℕ) :
    WorkerStage → (op : TscOp) → TscAns op → Option (WorkerStage ⊕ Stamp)
  | .awaiting, .loadRequest, (x : ℕ) =>
    some (.inl (if x = done + 1 then .requested else .awaiting))
  | .awaiting, .spin, _ => some (.inl .awaiting)
  | .awaiting, .finish _, _ => some (.inl .returned)
  | .requested, .stamp, (x : Stamp) => some (.inl (.stamped x false))
  | .stamped x false, .storeFailed, _ => some (.inl (.stamped x true))
  | .stamped x noted, .storeRemoteCycles cycles, _ =>
    if cycles = x.cycles ∧ (x.auxiliary ≠ expectedAux → noted = true) then
      some (.inl (.stored x))
    else
      none
  | .stored x, .storeResponse sequence, _ => if sequence = done + 1 then some (.inr x) else none
  | _, _, _ => none

inductive WorkerPhase where
  | starting
  | refused
  | pinned
  | stamped (expected : Stamp)
  | serving (expected : Stamp) (served : List Stamp) (stage : WorkerStage)
  | returned

def WorkerPhase.moved (expected : Stamp) (served : List Stamp) : WorkerStage ⊕ Stamp → WorkerPhase
  | .inl stage => serving expected served stage
  | .inr x => serving expected (served ++ [x]) .awaiting

def workerProtocol : Protocol TscOp TscAns WorkerPhase where
  next
    | .starting, .pinCurrent _, (x : Except String Unit) =>
      some (match x with
        | .ok () => .pinned
        | .error _ => .refused)
    | .refused, .finish (.error _), _ => some .returned
    | .pinned, .stamp, (x : Stamp) => some (.stamped x)
    | .stamped expected, .storeReady, _ => some (.serving expected [] .awaiting)
    | .serving expected served stage, op, x =>
      (stage.next expected.auxiliary served.length op x).map (WorkerPhase.moved expected served)
    | _, _, _ => none

section Worker

variable {expected : Stamp} {served : List Stamp} {α : Type} {F : α → WorkerPhase → Prop}

theorem follows_stage {stage : WorkerStage} {op : TscOp} {k : TscAns op → TscProg α}
    (h : ∀ x, ∃ next, stage.next expected.auxiliary served.length op x = some (.inl next) ∧
      workerProtocol.Follows (k x) (.serving expected served next) F) :
    workerProtocol.Follows (.call op k) (.serving expected served stage) F := by
  apply Protocol.follows_call
  intro x
  obtain ⟨next, hnext, hk⟩ := h x
  refine ⟨_, ?_, hk⟩
  change (stage.next expected.auxiliary served.length op x).map _ = _
  rw [hnext]
  rfl

/-- The worker serves one round after another. -/
theorem follows_serveRounds (rounds : ℕ) :
    workerProtocol.Follows (serveRounds expected.auxiliary rounds (served.length + 1))
      (.serving expected served .awaiting)
      fun _ φ => ∃ served', φ = .serving expected served' .awaiting := by
  induction rounds generalizing served with
  | zero => exact Protocol.follows_ret ⟨served, rfl⟩
  | succ rounds ih =>
    apply Protocol.follows_loop
    apply follows_stage
    intro (request : ℕ)
    have hstage : WorkerStage.next expected.auxiliary served.length .awaiting .loadRequest request =
        some (.inl (if request = served.length + 1 then .requested else .awaiting)) := rfl
    refine ⟨_, hstage, ?_⟩
    rw [ret_bind]
    by_cases h : request = served.length + 1
    · rw [if_pos h, if_neg (not_not.mpr h)]
      apply Protocol.follows_ret
      apply follows_stage
      intro (x : Stamp)
      refine ⟨.stamped x false, rfl, ?_⟩
      have hserve : ∀ noted, (x.auxiliary ≠ expected.auxiliary → noted = true) →
          workerProtocol.Follows
            (.call (TscOp.storeRemoteCycles x.cycles) fun _ =>
              .call (TscOp.storeResponse (served.length + 1)) fun _ =>
                serveRounds expected.auxiliary rounds (served.length + 1 + 1))
            (.serving expected served (.stamped x noted))
            fun _ φ => ∃ served', φ = .serving expected served' .awaiting := by
        intro noted hnoted
        apply follows_stage
        intro _
        have hstored : WorkerStage.next expected.auxiliary served.length (.stamped x noted)
            (.storeRemoteCycles x.cycles) () = some (.inl (.stored x)) := by
          cases noted
          · exact if_pos ⟨rfl, hnoted⟩
          · exact if_pos ⟨rfl, hnoted⟩
        refine ⟨_, hstored, ?_⟩
        apply Protocol.follows_call
        intro _
        refine ⟨.serving expected (served ++ [x]) .awaiting, ?_, ?_⟩
        · change Option.map _ (ite _ _ _) = _
          rw [if_pos rfl]
          rfl
        · have hrest : workerProtocol.Follows
              (serveRounds expected.auxiliary rounds ((served ++ [x]).length + 1))
              (.serving expected (served ++ [x]) .awaiting)
              fun _ φ => ∃ served', φ = .serving expected served' .awaiting := ih
          rw [List.length_append, List.length_singleton] at hrest
          exact hrest
      rw [ret_bind]
      apply Protocol.follows_bind
      by_cases hx : x.auxiliary = expected.auxiliary
      · have hquiet : noteMigration expected.auxiliary x = .ret () := if_neg (not_not.mpr hx)
        rw [hquiet]
        exact Protocol.follows_ret (hserve false fun h => absurd hx h)
      · have hnote : noteMigration expected.auxiliary x = perform TscOp.storeFailed := if_pos hx
        rw [hnote]
        apply follows_stage
        exact fun _ => ⟨.stamped x true, rfl, Protocol.follows_ret (hserve true fun _ => rfl)⟩
    · rw [if_neg h, if_pos h]
      apply follows_stage
      exact fun _ => ⟨.awaiting, rfl, Protocol.follows_ret rfl⟩

/-- The whole worker obeys its protocol. -/
theorem follows_tscWorker (samples cpu : ℕ) :
    workerProtocol.Follows (tscWorker samples cpu) .starting fun _ _ => True := by
  apply Protocol.follows_call
  rintro (e | _)
  · exact ⟨_, rfl, Protocol.follows_call fun _ => ⟨_, rfl, Protocol.follows_ret trivial⟩⟩
  refine ⟨.pinned, rfl, ?_⟩
  apply Protocol.follows_call
  intro expected
  refine ⟨.stamped expected, rfl, ?_⟩
  apply Protocol.follows_call
  intro _
  refine ⟨.serving expected [] .awaiting, rfl, ?_⟩
  have hserve : workerProtocol.Follows (serveRounds expected.auxiliary samples 1)
      (.serving expected [] .awaiting)
      fun _ φ => ∃ served, φ = .serving expected served .awaiting :=
    @follows_serveRounds expected [] samples
  rw [ret_bind]
  apply Protocol.follows_bind
  apply Protocol.follows_mono hserve
  rintro _ _ ⟨served, rfl⟩
  apply follows_stage
  exact fun _ => ⟨.returned, rfl, Protocol.follows_ret trivial⟩

end Worker

/-- A round with the instants of its readings. -/
structure TscRound where
  before : Reading
  remote : Reading
  after : Reading

namespace TscRound

def stamps (round : TscRound) : RoundStamps :=
  ⟨round.before.toStamp, round.remote.cycles, round.after.toStamp⟩

/-- The worker has read its counter between the controller's two stamps. -/
def Ordered (round : TscRound) : Prop :=
  round.before.instant < round.remote.instant ∧ round.remote.instant < round.after.instant

end TscRound

/-- The controller has read the stamps of `rounds` and those of `pending`, and loaded the cycles
of `rounds` and those of `loads`. -/
structure ControllerLedger (s : TscWorld) (rounds : List TscRound) (first : Reading)
    (pending : List Reading) (loads : List ℕ) : Prop where
  readings : s.readings .controller =
    first :: (rounds.flatMap (fun r => [r.before, r.after]) ++ pending)
  loaded : s.loaded = rounds.map (fun r => r.remote.cycles) ++ loads

/-- What the stage says of the world; `remote` is the worker's reading of the current round. -/
def ControllerStage.Fits (s : TscWorld) (rounds : List TscRound) (remote : Option Reading)
    (first : Reading) : ControllerStage → Prop
  | .between | .aborted =>
    s.request = rounds.length ∧ remote = none ∧ ControllerLedger s rounds first [] []
  | .stamped before => ∃ b : Reading, b.toStamp = before ∧ s.request = rounds.length ∧
    remote = none ∧ ControllerLedger s rounds first [b] []
  | .requested before => ∃ b : Reading, b.toStamp = before ∧ s.request = rounds.length + 1 ∧
    (∀ r, remote = some r → b.instant < r.instant) ∧ ControllerLedger s rounds first [b] []
  | .answered before => ∃ b r : Reading, b.toStamp = before ∧ remote = some r ∧
    b.instant < r.instant ∧ s.request = rounds.length + 1 ∧ s.response = rounds.length + 1 ∧
    ControllerLedger s rounds first [b] []
  | .loaded before remoteCycles => ∃ b r : Reading, b.toStamp = before ∧ remote = some r ∧
    b.instant < r.instant ∧ s.request = rounds.length + 1 ∧ s.response = rounds.length + 1 ∧
    r.cycles = remoteCycles ∧ ControllerLedger s rounds first [b] [remoteCycles]
  | .joined => s.request = rounds.length ∧ remote = none ∧ ControllerLedger s rounds first [] [] ∧
    s.finished = some (.ok ())
  | .checked => s.request = rounds.length ∧ remote = none ∧ ControllerLedger s rounds first [] [] ∧
    s.finished = some (.ok ()) ∧ s.failed = false

def ControllerPhase.Fits (s : TscWorld) (rounds : List TscRound) (remote : Option Reading) :
    ControllerPhase → Prop
  | .starting => rounds = [] ∧ remote = none ∧ s.request = 0 ∧ s.readings .controller = [] ∧
    s.loaded = []
  | .measuring reference stamps stage => stamps = rounds.map TscRound.stamps ∧
    ∃ first : Reading, first.toStamp = reference ∧ stage.Fits s rounds remote first

/-- The worker's readings of the rounds, that of the current one included. -/
def handed (rounds : List TscRound) (remote : Option Reading) : List Reading :=
  rounds.map TscRound.remote ++ remote.toList

def WorkerStage.Fits (s : TscWorld) (rounds : List TscRound) (remote : Option Reading)
    (expectedAux : ℕ) (served : List Stamp) : WorkerStage → Prop
  | .awaiting => served = (handed rounds remote).map Reading.toStamp ∧
    s.response = served.length ∧ (∀ r, remote = some r → s.remoteCycles = r.cycles) ∧
    s.finished = none
  | .requested => served = (handed rounds none).map Reading.toStamp ∧ remote = none ∧
    s.response = rounds.length ∧ s.request = rounds.length + 1 ∧ s.finished = none
  | .stamped x noted => served = (handed rounds none).map Reading.toStamp ∧
    (∃ r, remote = some r ∧ r.toStamp = x) ∧ s.response = rounds.length ∧
    s.request = rounds.length + 1 ∧ s.finished = none ∧ (noted = true → s.failed = true)
  | .stored x => served = (handed rounds none).map Reading.toStamp ∧
    (∃ r, remote = some r ∧ r.toStamp = x) ∧ s.response = rounds.length ∧
    s.request = rounds.length + 1 ∧ s.finished = none ∧
    (x.auxiliary ≠ expectedAux → s.failed = true) ∧ s.remoteCycles = x.cycles
  | .returned => served = (handed rounds remote).map Reading.toStamp ∧
    s.response = served.length ∧ (∀ r, remote = some r → s.remoteCycles = r.cycles)

def WorkerPhase.Fits (s : TscWorld) (rounds : List TscRound) (remote : Option Reading) :
    WorkerPhase → Prop
  | .starting | .refused | .pinned => rounds = [] ∧ remote = none ∧ s.response = 0 ∧
    s.readings .worker = [] ∧ s.finished = none
  | .stamped expected => rounds = [] ∧ remote = none ∧ s.response = 0 ∧
    (∃ first : Reading, first.toStamp = expected ∧ s.readings .worker = [first]) ∧
    s.finished = none
  | .serving expected served stage =>
    (∃ first : Reading, first.toStamp = expected ∧
      s.readings .worker = first :: handed rounds remote) ∧
    (∀ x ∈ served, x.auxiliary ≠ expected.auxiliary → s.failed = true) ∧
    stage.Fits s rounds remote expected.auxiliary served
  | .returned => rounds = [] ∧ remote = none ∧ s.response = 0 ∧ s.finished ≠ some (.ok ())

/-- The readings are those of the counters, and no later than now. -/
def Witnessed (counters : TscCounters) (s : TscWorld) : Prop :=
  ∀ r, ∀ x ∈ s.readings r, x.cycles = counters.cycles x.auxiliary x.instant ∧
    x.instant ≤ s.instant

structure TscInv (counters : TscCounters) (φ : ControllerPhase) (ψ : WorkerPhase) (s : TscWorld)
    (rounds : List TscRound) (remote : Option Reading) : Prop where
  controller : φ.Fits s rounds remote
  worker : ψ.Fits s rounds remote
  witnessed : Witnessed counters s
  ordered : ∀ r ∈ rounds, r.Ordered

section Invariant

variable {counters : TscCounters} {φ φ' : ControllerPhase} {ψ ψ' : WorkerPhase} {s s' : TscWorld}
  {rounds : List TscRound} {remote : Option Reading} {first : Reading}

/-- A stamp that is read is one of the counter at a later instant. -/
theorem Witnessed.read {r : TscThread} {instant : ℕ} (h : Witnessed counters s)
    (hlater : s.instant < instant) :
    Witnessed counters (s.read r ⟨⟨counters.cycles (s.cpu r) instant, s.cpu r⟩, instant⟩) := by
  intro r' x hx
  by_cases hr : r' = r
  · subst hr
    simp only [TscWorld.read, Function.update_self, List.mem_append, List.mem_singleton] at hx
    rcases hx with hx | rfl
    · exact ⟨(h r' x hx).1, (h r' x hx).2.trans hlater.le⟩
    · exact ⟨rfl, le_rfl⟩
  · simp only [TscWorld.read, Function.update_of_ne hr] at hx
    exact ⟨(h r' x hx).1, (h r' x hx).2.trans hlater.le⟩

/-- What the worker changes does not concern the controller, except where it has been answered
or has joined. -/
theorem ControllerPhase.Fits.frame (h : φ.Fits s rounds remote)
    (hrequest : s'.request = s.request)
    (hreadings : s'.readings .controller = s.readings .controller)
    (hloaded : s'.loaded = s.loaded)
    (hresponse : s.response = rounds.length + 1 → s'.response = s.response)
    (hend : s.finished = some (.ok ()) → s'.finished = s.finished ∧ s'.failed = s.failed) :
    φ.Fits s' rounds remote := by
  have hledger : ∀ {first pending loads}, ControllerLedger s rounds first pending loads →
      ControllerLedger s' rounds first pending loads :=
    fun h => ⟨hreadings.trans h.readings, hloaded.trans h.loaded⟩
  cases φ with
  | starting =>
    obtain ⟨hrounds, hremote, hq, hr, hl⟩ := h
    exact ⟨hrounds, hremote, hrequest.trans hq, hreadings.trans hr, hloaded.trans hl⟩
  | measuring reference stamps stage =>
    obtain ⟨hstamps, first, hfirst, h⟩ := h
    refine ⟨hstamps, first, hfirst, ?_⟩
    cases stage with
    | between | aborted =>
      obtain ⟨hq, hremote, hl⟩ := h
      exact ⟨hrequest.trans hq, hremote, hledger hl⟩
    | stamped before =>
      obtain ⟨b, hb, hq, hremote, hl⟩ := h
      exact ⟨b, hb, hrequest.trans hq, hremote, hledger hl⟩
    | requested before =>
      obtain ⟨b, hb, hq, hlater, hl⟩ := h
      exact ⟨b, hb, hrequest.trans hq, hlater, hledger hl⟩
    | answered before =>
      obtain ⟨b, r, hb, hremote, hlater, hq, hp, hl⟩ := h
      exact ⟨b, r, hb, hremote, hlater, hrequest.trans hq, (hresponse hp).trans hp, hledger hl⟩
    | loaded before remoteCycles =>
      obtain ⟨b, r, hb, hremote, hlater, hq, hp, hv, hl⟩ := h
      exact ⟨b, r, hb, hremote, hlater, hrequest.trans hq, (hresponse hp).trans hp, hv, hledger hl⟩
    | joined =>
      obtain ⟨hq, hremote, hl, hf⟩ := h
      exact ⟨hrequest.trans hq, hremote, hledger hl, (hend hf).1.trans hf⟩
    | checked =>
      obtain ⟨hq, hremote, hl, hf, hn⟩ := h
      exact ⟨hrequest.trans hq, hremote, hledger hl, (hend hf).1.trans hf, (hend hf).2.trans hn⟩

/-- What the controller changes does not concern the worker, as long as a request that it has
seen stands. -/
theorem WorkerPhase.Fits.frame (h : ψ.Fits s rounds remote)
    (hrequest : s.request = rounds.length + 1 → s'.request = s.request)
    (hresponse : s'.response = s.response) (hcycles : s'.remoteCycles = s.remoteCycles)
    (hreadings : s'.readings .worker = s.readings .worker) (hfailed : s'.failed = s.failed)
    (hfinished : s'.finished = s.finished) : ψ.Fits s' rounds remote := by
  cases ψ with
  | starting | refused | pinned =>
    obtain ⟨hrounds, hremote, hp, hr, hf⟩ := h
    exact ⟨hrounds, hremote, hresponse.trans hp, hreadings.trans hr, hfinished.trans hf⟩
  | stamped expected =>
    obtain ⟨hrounds, hremote, hp, ⟨first, hfirst, hr⟩, hf⟩ := h
    exact ⟨hrounds, hremote, hresponse.trans hp, ⟨first, hfirst, hreadings.trans hr⟩,
      hfinished.trans hf⟩
  | returned =>
    obtain ⟨hrounds, hremote, hp, hf⟩ := h
    exact ⟨hrounds, hremote, hresponse.trans hp, hfinished ▸ hf⟩
  | serving expected served stage =>
    obtain ⟨hfirst, hnoted, h⟩ := h
    refine ⟨hreadings ▸ hfirst, hfailed ▸ hnoted, ?_⟩
    cases stage with
    | awaiting =>
      obtain ⟨hserved, hp, hc, hf⟩ := h
      exact ⟨hserved, hresponse.trans hp, fun r hr => hcycles.trans (hc r hr), hfinished.trans hf⟩
    | returned =>
      obtain ⟨hserved, hp, hc⟩ := h
      exact ⟨hserved, hresponse.trans hp, fun r hr => hcycles.trans (hc r hr)⟩
    | requested =>
      obtain ⟨hserved, hremote, hp, hq, hf⟩ := h
      exact ⟨hserved, hremote, hresponse.trans hp, (hrequest hq).trans hq, hfinished.trans hf⟩
    | stamped x noted =>
      obtain ⟨hserved, hremote, hp, hq, hf, hn⟩ := h
      exact ⟨hserved, hremote, hresponse.trans hp, (hrequest hq).trans hq, hfinished.trans hf,
        hfailed ▸ hn⟩
    | stored x =>
      obtain ⟨hserved, hremote, hp, hq, hf, hn, hc⟩ := h
      exact ⟨hserved, hremote, hresponse.trans hp, (hrequest hq).trans hq, hfinished.trans hf,
        hfailed ▸ hn, hcycles.trans hc⟩

theorem ControllerLedger.read {pending : List Reading} {loads : List ℕ} (reading : Reading)
    (h : ControllerLedger s rounds first pending loads) :
    ControllerLedger (s.read .controller reading) rounds first (pending ++ [reading]) loads := by
  refine ⟨?_, h.loaded⟩
  simp only [TscWorld.read, Function.update_self, h.readings, List.cons_append, List.append_assoc]

theorem WorkerPhase.Fits.controllerRead (h : ψ.Fits s rounds remote) (reading : Reading) :
    ψ.Fits (s.read .controller reading) rounds remote :=
  h.frame (fun _ => rfl) rfl rfl rfl rfl rfl

/-- A worker that has answered the current round waits for the next one. -/
theorem WorkerPhase.Fits.answered (h : ψ.Fits s rounds remote)
    (hresponse : s.response = rounds.length + 1) : ∃ expected served stage,
      ψ = .serving expected served stage ∧ (stage = .awaiting ∨ stage = .returned) := by
  cases ψ with
  | starting | refused | pinned | stamped | returned =>
    exact nomatch h.2.2.1.symm.trans hresponse
  | serving expected served stage =>
    obtain ⟨-, -, h⟩ := h
    cases stage with
    | awaiting => exact ⟨_, _, _, rfl, .inl rfl⟩
    | returned => exact ⟨_, _, _, rfl, .inr rfl⟩
    | requested =>
      obtain ⟨-, -, hp, -⟩ := h
      omega
    | stamped x noted =>
      obtain ⟨-, -, hp, -⟩ := h
      omega
    | stored x =>
      obtain ⟨-, -, hp, -⟩ := h
      omega

theorem length_handed (rounds : List TscRound) (remote : Option Reading) :
    (handed rounds remote).length = rounds.length + remote.toList.length := by
  rw [handed, List.length_append, List.length_map]

theorem handed_close (rounds : List TscRound) {b r a : Reading} :
    handed (rounds ++ [⟨b, r, a⟩]) none = handed rounds (some r) := by
  simp only [handed, List.map_append, List.map_cons, List.map_nil, Option.toList_none,
    Option.toList_some, List.append_nil]

/-- The cycles that the controller loads are those of the reading that answers its request. -/
theorem WorkerPhase.Fits.remoteCycles (h : ψ.Fits s rounds remote)
    (hresponse : s.response = rounds.length + 1) {r : Reading} (hremote : remote = some r) :
    s.remoteCycles = r.cycles := by
  obtain ⟨expected, served, stage, rfl, rfl | rfl⟩ := h.answered hresponse
  · exact h.2.2.2.2.1 r hremote
  · exact h.2.2.2.2 r hremote

/-- The round that is complete counts among the others from now on. -/
theorem WorkerPhase.Fits.close {b r a : Reading} (h : ψ.Fits s rounds (some r))
    (hresponse : s.response = rounds.length + 1) : ψ.Fits s (rounds ++ [⟨b, r, a⟩]) none := by
  obtain ⟨expected, served, stage, rfl, rfl | rfl⟩ := h.answered hresponse
  · obtain ⟨hfirst, hnoted, hserved, hp, hc, hf⟩ := h
    rw [← handed_close rounds] at hfirst hserved
    exact ⟨hfirst, hnoted, hserved, hp, fun _ h => (nomatch h), hf⟩
  · obtain ⟨hfirst, hnoted, hserved, hp, hc⟩ := h
    rw [← handed_close rounds] at hfirst hserved
    exact ⟨hfirst, hnoted, hserved, hp, fun _ h => nomatch h⟩

/-- Where the response has come, the worker has read its counter. -/
theorem WorkerPhase.Fits.exists_remote (h : ψ.Fits s rounds remote)
    (hresponse : s.response = rounds.length + 1) :
    ∃ r, remote = some r ∧ r ∈ s.readings .worker := by
  obtain ⟨expected, served, stage, rfl, hstage⟩ := h.answered hresponse
  obtain ⟨⟨first, -, hreadings⟩, -, h⟩ := h
  have hserved : served = (handed rounds remote).map Reading.toStamp ∧
      s.response = served.length := by
    rcases hstage with rfl | rfl
    · exact ⟨h.1, h.2.1⟩
    · exact ⟨h.1, h.2.1⟩
  obtain ⟨rfl, hp⟩ := hserved
  rw [hresponse, List.length_map, length_handed] at hp
  cases remote with
  | none => simp at hp
  | some r =>
    refine ⟨r, rfl, ?_⟩
    rw [hreadings]
    exact List.mem_cons_of_mem _ (List.mem_append_right _ List.mem_cons_self)

/-- A step of the controller within a round keeps the invariant. -/
theorem TscInv.controllerStage {reference : Stamp} {stamps : List RoundStamps}
    {stage : ControllerStage}
    (h : TscInv counters (.measuring reference stamps stage) ψ s rounds remote) {op : TscOp}
    {x : TscAns op} {y : ControllerStage ⊕ RoundStamps}
    (hnext : stage.next stamps.length op x = some y)
    (hact : TscWorld.act counters .controller op s x s') :
    ∃ rounds remote, TscInv counters (.moved reference stamps y) ψ s' rounds remote := by
  obtain ⟨⟨rfl, first, hfirst, hfits⟩, hworker, hwitnessed, hordered⟩ := h
  rw [List.length_map] at hnext
  unfold ControllerStage.next at hnext
  split at hnext
  · -- the stamp before the request
    cases hnext
    obtain ⟨instant, hlater, rfl, rfl⟩ := hact
    obtain ⟨hq, hremote, hl⟩ := hfits
    exact ⟨rounds, remote, ⟨rfl, first, hfirst, _, rfl, hq, hremote, hl.read _⟩,
      hworker.controllerRead _, hwitnessed.read hlater, hordered⟩
  · -- the request
    next sequence _ =>
    split at hnext
    · next hsequence =>
      cases hnext
      cases hact
      subst hsequence
      obtain ⟨b, hb, hq, rfl, hl⟩ := hfits
      refine ⟨rounds, none, ⟨rfl, first, hfirst, b, hb, rfl, fun _ h => (nomatch h), hl.1, hl.2⟩,
        hworker.frame ?_ rfl rfl rfl rfl rfl, hwitnessed, hordered⟩
      exact fun h => h.symm
    · cases hnext
  · -- the response
    cases hnext
    obtain ⟨rfl, rfl⟩ := hact
    obtain ⟨b, hb, hq, hbefore, hl⟩ := hfits
    refine ⟨rounds, remote, ⟨rfl, first, hfirst, ?_⟩, hworker, hwitnessed, hordered⟩
    split
    · next hresponse =>
      obtain ⟨r, rfl, -⟩ := hworker.exists_remote hresponse
      exact ⟨b, r, hb, rfl, hbefore r rfl, hq, hresponse, hl⟩
    · exact ⟨b, hb, hq, hbefore, hl⟩
  · cases hnext
    cases hact
    exact ⟨rounds, remote, ⟨rfl, first, hfirst, hfits⟩, hworker, hwitnessed, hordered⟩
  · -- the remote cycles
    cases hnext
    obtain ⟨rfl, rfl⟩ := hact
    obtain ⟨b, r, hb, rfl, hbefore, hq, hp, hl⟩ := hfits
    refine ⟨rounds, some r, ⟨rfl, first, hfirst, b, r, hb, rfl, hbefore, hq, hp,
      (hworker.remoteCycles hp rfl).symm, hl.readings, ?_⟩,
      hworker.frame (fun _ => rfl) rfl rfl rfl rfl rfl, hwitnessed, hordered⟩
    change s.loaded ++ _ = _
    rw [hl.loaded, List.append_nil]
  · -- the stamp after the response
    cases hnext
    obtain ⟨instant, hlater, rfl, rfl⟩ := hact
    obtain ⟨b, r, rfl, rfl, hbefore, hq, hp, rfl, hl⟩ := hfits
    have hmem : r ∈ s.readings .worker := by
      obtain ⟨r', hr', hmem⟩ := hworker.exists_remote hp
      cases hr'
      exact hmem
    have hl' := hl.read ⟨⟨counters.cycles (s.cpu .controller) instant, s.cpu .controller⟩, instant⟩
    refine ⟨rounds ++
        [⟨b, r, ⟨⟨counters.cycles (s.cpu .controller) instant, s.cpu .controller⟩, instant⟩⟩], none,
      ⟨?_, first, hfirst, ?_, rfl, ?_, ?_⟩, (hworker.close hp).controllerRead _,
      hwitnessed.read hlater, ?_⟩
    · rw [List.map_append]
      rfl
    · rw [List.length_append]
      exact hq
    · rw [hl'.readings, List.flatMap_append, List.append_nil]
      rfl
    · rw [hl'.loaded, List.map_append, List.append_nil]
      rfl
    · intro r' hr'
      rcases List.mem_append.mp hr' with hr' | hr'
      · exact hordered r' hr'
      · rw [List.mem_singleton] at hr'
        subst hr'
        exact ⟨hbefore, ((hwitnessed _ r hmem).2).trans_lt hlater⟩
  · -- the worker has returned
    cases hnext
    obtain ⟨-, rfl, rfl⟩ := hact
    obtain ⟨hq, hremote, hl⟩ := hfits
    refine ⟨rounds, remote, ⟨rfl, first, hfirst, ?_⟩, hworker, hwitnessed, hordered⟩
    split
    · next hjoined => exact ⟨hq, hremote, hl, hjoined⟩
    · exact ⟨hq, hremote, hl⟩
  · cases hnext
    obtain ⟨rfl, rfl⟩ := hact
    obtain ⟨hq, hremote, hl, hf⟩ := hfits
    refine ⟨rounds, remote, ⟨rfl, first, hfirst, ?_⟩, hworker, hwitnessed, hordered⟩
    split
    · exact ⟨hq, hremote, hl⟩
    · next hfailed => exact ⟨hq, hremote, hl, hf, by simpa using hfailed⟩
  · cases hnext

/-- A step of the controller keeps the invariant. -/
theorem TscInv.controllerStep (h : TscInv counters φ ψ s rounds remote) {op : TscOp}
    {x : TscAns op} (hnext : controllerProtocol.next φ op x = some φ')
    (hact : TscWorld.act counters .controller op s x s') :
    ∃ rounds remote, TscInv counters φ' ψ s' rounds remote := by
  cases φ with
  | starting =>
    cases op with
    | stamp =>
      cases hnext
      obtain ⟨instant, hlater, rfl, rfl⟩ := hact
      obtain ⟨⟨rfl, rfl, hq, hr, hl⟩, hworker, hwitnessed, hordered⟩ := h
      refine ⟨[], none, ⟨rfl, ⟨⟨counters.cycles (s.cpu .controller) instant, s.cpu .controller⟩,
        instant⟩, rfl, hq, rfl, ?_, hl⟩, hworker.controllerRead _,
        hwitnessed.read hlater, hordered⟩
      simp only [TscWorld.read, Function.update_self, hr]
      rfl
    | loadReady | workerFinished =>
      cases hnext
      obtain ⟨-, rfl⟩ := hact
      exact ⟨rounds, remote, h⟩
    | startupElapsed | spin =>
      cases hnext
      cases hact
      exact ⟨rounds, remote, h⟩
    | _ => cases hnext
  | measuring reference stamps stage =>
    obtain ⟨y, hy, rfl⟩ := Option.map_eq_some_iff.mp hnext
    exact h.controllerStage hy hact

theorem ControllerPhase.Fits.workerRead (h : φ.Fits s rounds remote) (reading : Reading) :
    φ.Fits (s.read .worker reading) rounds remote :=
  h.frame rfl rfl rfl (fun _ => rfl) fun _ => ⟨rfl, rfl⟩

/-- A controller whose request the worker has just seen awaits the response. -/
theorem ControllerPhase.Fits.exists_requested (h : φ.Fits s rounds none)
    (hrequest : s.request = rounds.length + 1) (hresponse : s.response = rounds.length) :
    ∃ reference stamps before, φ = .measuring reference stamps (.requested before) := by
  cases φ with
  | starting =>
    obtain ⟨rfl, -, hq, -, -⟩ := h
    exact nomatch hq.symm.trans hrequest
  | measuring reference stamps stage =>
    obtain ⟨-, first, -, h⟩ := h
    cases stage with
    | requested before => exact ⟨_, _, _, rfl⟩
    | between | aborted | joined | checked =>
      obtain ⟨hq, -⟩ := h
      omega
    | stamped before =>
      obtain ⟨b, -, hq, -⟩ := h
      omega
    | answered before =>
      obtain ⟨b, r, -, hremote, -⟩ := h
      cases hremote
    | loaded before remoteCycles =>
      obtain ⟨b, r, -, hremote, -⟩ := h
      cases hremote

/-- The worker's reading comes after the stamp of the round it is for. -/
theorem ControllerPhase.Fits.answer (h : φ.Fits s rounds none)
    (hrequest : s.request = rounds.length + 1) (hresponse : s.response = rounds.length)
    (hwitnessed : Witnessed counters s) {reading : Reading} (hlater : s.instant < reading.instant) :
    φ.Fits (s.read .worker reading) rounds (some reading) := by
  obtain ⟨reference, stamps, before, rfl⟩ := h.exists_requested hrequest hresponse
  obtain ⟨hstamps, first, hfirst, b, hb, hq, -, hl⟩ := h
  have hmem : b ∈ s.readings .controller := by
    rw [hl.readings]
    exact List.mem_cons_of_mem _ (List.mem_append_right _ List.mem_cons_self)
  refine ⟨hstamps, first, hfirst, b, hb, hq, ?_, hl.readings, hl.loaded⟩
  rintro _ ⟨⟩
  exact (hwitnessed _ b hmem).2.trans_lt hlater

/-- A step of the worker within a round keeps the invariant. -/
theorem TscInv.workerStage {expected : Stamp} {served : List Stamp} {stage : WorkerStage}
    (h : TscInv counters φ (.serving expected served stage) s rounds remote) {op : TscOp}
    {x : TscAns op} {y : WorkerStage ⊕ Stamp}
    (hnext : stage.next expected.auxiliary served.length op x = some y)
    (hact : TscWorld.act counters .worker op s x s') :
    ∃ rounds remote, TscInv counters φ (.moved expected served y) s' rounds remote := by
  obtain ⟨hcontroller, ⟨⟨first, hfirst, hreadings⟩, hnoted, hfits⟩, hwitnessed, hordered⟩ := h
  unfold WorkerStage.next at hnext
  split at hnext
  · -- the request is looked at
    cases hnext
    obtain ⟨rfl, rfl⟩ := hact
    refine ⟨rounds, remote, hcontroller, ⟨⟨first, hfirst, hreadings⟩, hnoted, ?_⟩, hwitnessed,
      hordered⟩
    obtain ⟨hserved, hp, hc, hf⟩ := hfits
    split
    · next hrequest =>
      have hlength : served.length = rounds.length + remote.toList.length := by
        rw [hserved, List.length_map, length_handed]
      cases remote with
      | none => exact ⟨hserved, rfl, hp.trans hlength, by rw [hrequest, hlength]; rfl, hf⟩
      | some r =>
        -- An answered request is the last one there is.
        have hq : s'.request ≤ rounds.length + 1 := by
          cases φ with
          | starting => exact nomatch hcontroller.2.1
          | measuring reference stamps stage =>
            obtain ⟨-, first, -, h⟩ := hcontroller
            cases stage with
            | between | aborted | joined | checked => exact nomatch h.2.1
            | stamped before =>
              obtain ⟨b, -, -, hremote, -⟩ := h
              cases hremote
            | requested before =>
              obtain ⟨b, -, hq, -⟩ := h
              exact hq.le
            | answered before =>
              obtain ⟨b, r, -, -, -, hq, -⟩ := h
              exact hq.le
            | loaded before remoteCycles =>
              obtain ⟨b, r, -, -, -, hq, -⟩ := h
              exact hq.le
        rw [Option.toList_some, List.length_singleton] at hlength
        omega
    · exact ⟨hserved, hp, hc, hf⟩
  · cases hnext
    cases hact
    exact ⟨rounds, remote, hcontroller, ⟨⟨first, hfirst, hreadings⟩, hnoted, hfits⟩, hwitnessed,
      hordered⟩
  · -- the closure returns
    cases hnext
    cases hact
    obtain ⟨hserved, hp, hc, hf⟩ := hfits
    refine ⟨rounds, remote, hcontroller.frame rfl rfl rfl (fun _ => rfl) ?_,
      ⟨⟨first, hfirst, hreadings⟩, hnoted, hserved, hp, hc⟩, hwitnessed, hordered⟩
    intro hfinished
    exact nomatch hf.symm.trans hfinished
  · -- the worker's stamp
    cases hnext
    obtain ⟨instant, hlater, rfl, rfl⟩ := hact
    obtain ⟨hserved, rfl, hp, hq, hf⟩ := hfits
    refine ⟨rounds,
      some ⟨⟨counters.cycles (s.cpu .worker) instant, s.cpu .worker⟩, instant⟩,
      hcontroller.answer hq hp hwitnessed hlater, ⟨⟨first, hfirst, ?_⟩, hnoted,
        hserved, ⟨_, rfl, rfl⟩, hp, hq, hf, fun h => (nomatch h)⟩, hwitnessed.read hlater, hordered⟩
    simp only [TscWorld.read, Function.update_self, hreadings, handed, Option.toList_none,
      Option.toList_some, List.append_nil, List.cons_append]
  · -- a migration is noted
    cases hnext
    cases hact
    obtain ⟨hserved, hremote, hp, hq, hf, -⟩ := hfits
    refine ⟨rounds, remote, hcontroller.frame rfl rfl rfl (fun _ => rfl) ?_,
      ⟨⟨first, hfirst, hreadings⟩, fun _ _ _ => rfl, hserved, hremote, hp, hq, hf, fun _ => rfl⟩,
      hwitnessed, hordered⟩
    intro hfinished
    exact nomatch hf.symm.trans hfinished
  · -- the cycles are handed over
    split at hnext
    · next hcycles =>
      cases hnext
      cases hact
      obtain ⟨hserved, hremote, hp, hq, hf, hn⟩ := hfits
      exact ⟨rounds, remote, hcontroller.frame rfl rfl rfl (fun _ => rfl) fun _ => ⟨rfl, rfl⟩,
        ⟨⟨first, hfirst, hreadings⟩, hnoted, hserved, hremote, hp, hq, hf,
          fun haux => hn (hcycles.2 haux), hcycles.1⟩, hwitnessed, hordered⟩
    · cases hnext
  · -- the response
    split at hnext
    · next hsequence =>
      cases hnext
      cases hact
      subst hsequence
      obtain ⟨hserved, ⟨r, rfl, rfl⟩, hp, hq, hf, hn, hc⟩ := hfits
      have hlength : served.length = rounds.length := by
        rw [hserved, List.length_map, length_handed]
        rfl
      refine ⟨rounds, some r, hcontroller.frame rfl rfl rfl ?_ fun _ => ⟨rfl, rfl⟩,
        ⟨⟨first, hfirst, hreadings⟩, ?_, ?_, ?_, ?_, hf⟩, hwitnessed, hordered⟩
      · intro hresponse
        omega
      · intro x hx haux
        rcases List.mem_append.mp hx with hx | hx
        · exact hnoted x hx haux
        · rw [List.mem_singleton] at hx
          subst hx
          exact hn haux
      · rw [hserved]
        simp only [handed, Option.toList_none, Option.toList_some, List.append_nil,
          List.map_append, List.map_cons, List.map_nil]
      · rw [List.length_append, List.length_singleton]
      · rintro _ ⟨⟩
        exact hc
    · cases hnext
  · cases hnext

/-- A step of the worker keeps the invariant. -/
theorem TscInv.workerStep (h : TscInv counters φ ψ s rounds remote) {op : TscOp}
    {x : TscAns op} (hnext : workerProtocol.next ψ op x = some ψ')
    (hact : TscWorld.act counters .worker op s x s') :
    ∃ rounds remote, TscInv counters φ ψ' s' rounds remote := by
  cases ψ with
  | serving expected served stage =>
    obtain ⟨y, hy, rfl⟩ := Option.map_eq_some_iff.mp hnext
    exact h.workerStage hy hact
  | starting =>
    cases op with
    | pinCurrent cpu =>
      cases hnext
      obtain ⟨hcontroller, hworker, hwitnessed, hordered⟩ := h
      cases x with
      | ok _ =>
        cases hact
        exact ⟨rounds, remote, hcontroller.frame rfl rfl rfl (fun _ => rfl) fun _ => ⟨rfl, rfl⟩,
          hworker, hwitnessed, hordered⟩
      | error e =>
        cases hact
        exact ⟨rounds, remote, hcontroller, hworker, hwitnessed, hordered⟩
    | _ => cases hnext
  | refused =>
    cases op with
    | finish result =>
      cases result with
      | ok _ => cases hnext
      | error e =>
        cases hnext
        cases hact
        obtain ⟨hcontroller, ⟨rfl, rfl, hp, -, hf⟩, hwitnessed, hordered⟩ := h
        refine ⟨[], none, hcontroller.frame rfl rfl rfl (fun _ => rfl) ?_,
          ⟨rfl, rfl, hp, fun h => (nomatch h)⟩, hwitnessed, hordered⟩
        intro hfinished
        exact nomatch hf.symm.trans hfinished
    | _ => cases hnext
  | pinned =>
    cases op with
    | stamp =>
      cases hnext
      obtain ⟨instant, hlater, rfl, rfl⟩ := hact
      obtain ⟨hcontroller, ⟨rfl, rfl, hp, hr, hf⟩, hwitnessed, hordered⟩ := h
      refine ⟨[], none, hcontroller.workerRead _, ⟨rfl, rfl, hp,
        ⟨⟨⟨counters.cycles (s.cpu .worker) instant, s.cpu .worker⟩, instant⟩, rfl, ?_⟩, hf⟩,
        hwitnessed.read hlater, hordered⟩
      simp only [TscWorld.read, Function.update_self, hr, List.nil_append]
    | _ => cases hnext
  | stamped expected =>
    cases op with
    | storeReady =>
      cases hnext
      cases hact
      obtain ⟨hcontroller, ⟨rfl, rfl, hp, ⟨first, hfirst, hr⟩, hf⟩, hwitnessed, hordered⟩ := h
      exact ⟨[], none, hcontroller.frame rfl rfl rfl (fun _ => rfl) fun _ => ⟨rfl, rfl⟩,
        ⟨⟨first, hfirst, hr⟩, fun _ h => (nomatch h), rfl, hp, fun _ h => (nomatch h), hf⟩,
        hwitnessed, hordered⟩
    | _ => cases hnext
  | returned => cases hnext

end Invariant

abbrev TscPhases : TscThread → Type
  | .controller => ControllerPhase
  | .worker => WorkerPhase

def tscProtocols : (r : TscThread) → Protocol TscOp TscAns (TscPhases r)
  | .controller => controllerProtocol
  | .worker => workerProtocol

def tscPhases : (r : TscThread) → TscPhases r
  | .controller => .starting
  | .worker => .starting

def TscEnded (samples : ℕ) : (r : TscThread) → TscResult r → TscPhases r → Prop
  | .controller => Ends (Estimated samples) fun _ _ => True
  | .worker => fun _ _ => True

theorem tscPool_follows (samples cpu : ℕ) (r : TscThread) :
    (tscProtocols r).Follows (tscPool samples cpu r) (tscPhases r) (TscEnded samples r) := by
  cases r with
  | controller => exact obeys_estimateRemoteTscOffset samples _ rfl
  | worker => exact follows_tscWorker samples cpu

/-- The invariant holds at every point of every run. -/
theorem tsc_reach {counters : TscCounters} {samples cpu : ℕ} {cpus : TscThread → ℕ}
    {c : Pool TscThread TscOp TscAns TscResult} {s : TscWorld}
    (hr : PoolReach (tscParties counters) (tscPool samples cpu, .initial cpus) (c, s)) :
    ∃ φ ψ rounds remote, TscInv counters φ ψ s rounds remote ∧
      ∀ result, c .controller = .ret (.ok result) → Estimated samples result φ := by
  have hstart : TscInv counters (tscPhases .controller) (tscPhases .worker) (.initial cpus) []
      none := by
    refine ⟨⟨rfl, rfl, rfl, rfl, rfl⟩, ⟨rfl, rfl, rfl, rfl, rfl⟩, ?_, fun _ h => nomatch h⟩
    exact fun _ _ h => nomatch h
  have hact : ∀ (r : TscThread) (φ : (r : TscThread) → TscPhases r) (op : TscOp) (x : TscAns op)
      (φ' : TscPhases r) (s s' : TscWorld),
      (∃ rounds remote, TscInv counters (φ .controller) (φ .worker) s rounds remote) →
      (tscProtocols r).next (φ r) op x = some φ' → (tscParties counters).act r op s x s' →
      ∃ rounds remote, TscInv counters (Function.update φ r φ' .controller)
        (Function.update φ r φ' .worker) s' rounds remote := by
    rintro r φ op x φ' s s' ⟨rounds, remote, hinv⟩ hnext hact
    cases r with
    | controller => exact hinv.controllerStep hnext hact
    | worker => exact hinv.workerStep hnext hact
  have henv : ∀ (φ : (r : TscThread) → TscPhases r) (s s' : TscWorld),
      (∃ rounds remote, TscInv counters (φ .controller) (φ .worker) s rounds remote) →
      (tscParties counters).env s s' →
      ∃ rounds remote, TscInv counters (φ .controller) (φ .worker) s' rounds remote := by
    rintro φ s _ ⟨rounds, remote, h⟩ ⟨r, cpu, rfl⟩
    exact ⟨rounds, remote, h.controller.frame rfl rfl rfl (fun _ => rfl) fun _ => ⟨rfl, rfl⟩,
      h.worker.frame (fun _ => rfl) rfl rfl rfl rfl rfl, h.witnessed, h.ordered⟩
  obtain ⟨φ, ⟨rounds, remote, hinv⟩, hends⟩ := PoolReach.phases
    (J := fun φ s => ∃ rounds remote,
      TscInv counters (φ .controller) (φ .worker) s rounds remote)
    (tscPool_follows samples cpu) ⟨[], none, hstart⟩ hact henv hr
  exact ⟨φ .controller, φ .worker, rounds, remote, hinv,
    fun result hret => (hends .controller).2 _ hret⟩

end Snoozer
