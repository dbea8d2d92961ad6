import Snoozer.PreflightTrials
import Snoozer.WaitTermination
import Mathlib.Data.List.Induction

/-! What a verdict of the functional probe proves. The waiter's part is a protocol that collects
its baselines and its trials; the record of what happened bears out what it has collected. -/
namespace Snoozer
open Interactive

structure TrialRecord where
  started : ℕ
  waitFinished : ℕ
  observed : ℕ
  publishedAt : Option ℕ
  deriving DecidableEq, Repr

/-- A trial under way; `observed` is what its last load has seen. -/
inductive TrialStage where
  | spawned
  | waiting (started observed : ℕ) (armed handedOff : Bool)
  | finished (started observed waitFinished : ℕ)
  deriving DecidableEq, Repr

structure ProbePhase where
  readings : List ℕ
  records : List TrialRecord
  stage : Option TrialStage
  deriving DecidableEq, Repr

namespace TrialStage

/-- The calls of `preflight_wait_once`; the handoff is published behind the arm only. -/
def waits (started observed : ℕ) (armed handedOff : Bool) :
    (op : WaitOp ℕ) → WaitAns ℕ op → Option TrialStage
  | .load address _, (v : ℕ) =>
    if address = preflightTarget.address then some (.waiting started v armed handedOff) else none
  | .monitorx address, _ | .umonitor address, _ =>
    if address = preflightTarget.address then some (.waiting started observed true handedOff)
    else none
  | .storeHandoff, _ => if armed then some (.waiting started observed armed true) else none
  | .mwaitx _ _, _ | .umwaitC01 _, _ | .readTscOrdered, _ =>
    some (.waiting started observed armed handedOff)
  | _, _ => none

/-- The next stage of a trial, or what it has come to. -/
def next : TrialStage → (op : PreflightOp) → PreflightAns op → Option (TrialStage ⊕ TrialRecord)
  | .spawned, .instantNow, (x : ℕ) => some (.inl (.waiting x 0 false false))
  | .waiting started observed armed handedOff, .wait op, x =>
    (waits started observed armed handedOff op x).map .inl
  | .waiting started observed _ _, .instantNow, (x : ℕ) => some (.inl (.finished started observed x))
  | .finished started observed waitFinished, .receive, (published : Option ℕ) =>
    some (.inr ⟨started, waitFinished, observed, published⟩)
  | _, _, _ => none

end TrialStage

/-- A call of the baseline waits. -/
def WaitOp.onBaseline : WaitOp ℕ → Bool
  | .load address _ | .monitorx address | .umonitor address => address = baselineTarget.address
  | .mwaitx _ _ | .umwaitC01 _ | .readTscOrdered => true
  | _ => false

namespace ProbePhase

def moved (φ : ProbePhase) : TrialStage ⊕ TrialRecord → ProbePhase
  | .inl stage => { φ with stage := some stage }
  | .inr record => { φ with records := φ.records ++ [record], stage := none }

/-- Between two trials. -/
def idleNext (φ : ProbePhase) : (op : PreflightOp) → PreflightAns op → Option ProbePhase
  | .startTrial _, _ => some { φ with stage := some .spawned }
  | .instantNow, (x : ℕ) =>
    if φ.records = [] then some { φ with readings := φ.readings ++ [x] } else none
  | .wait op, _ => if op.onBaseline then some φ else none
  | _, _ => none

end ProbePhase

def probeProtocol : Protocol PreflightOp PreflightAns ProbePhase where
  next φ op x := match φ.stage with
    | none => φ.idleNext op x
    | some stage => (stage.next op x).map φ.moved

theorem probeProtocol_next_idle {φ : ProbePhase} (h : φ.stage = none) (op : PreflightOp)
    (x : PreflightAns op) : probeProtocol.next φ op x = φ.idleNext op x := by
  simp only [probeProtocol, h]

theorem probeProtocol_next_stage {φ : ProbePhase} {stage : TrialStage} (h : φ.stage = some stage)
    (op : PreflightOp) (x : PreflightAns op) :
    probeProtocol.next φ op x = (stage.next op x).map φ.moved := by
  simp only [probeProtocol, h]

namespace ProbePhase

variable {readings : List ℕ} {records : List TrialRecord} {α : Type}

/-- A trial under way whose waiter has seen `observed` last. -/
def during (readings : List ℕ) (records : List TrialRecord) (stage : TrialStage) : ProbePhase :=
  ⟨readings, records, some stage⟩

/-- The phase in which a wait ends with `observed`. -/
def WaitEnded (readings : List ℕ) (records : List TrialRecord) (started observed : ℕ)
    (φ : ProbePhase) : Prop :=
  ∃ armed handedOff, φ = during readings records (.waiting started observed armed handedOff)

/-- A call of the waiter's loop is a step of its trial. -/
theorem follows_wait {started observed : ℕ} {armed handedOff : Bool} {op : WaitOp ℕ}
    {k : WaitAns ℕ op → WaitProg ℕ α} {F : α → ProbePhase → Prop}
    (h : ∀ x, ∃ stage, TrialStage.waits started observed armed handedOff op x = some stage ∧
      probeProtocol.Follows (waiting (k x)) (during readings records stage) F) :
    probeProtocol.Follows (waiting (.call op k))
      (during readings records (.waiting started observed armed handedOff)) F := by
  apply Protocol.follows_call
  intro x
  obtain ⟨stage, hwaits, hk⟩ := h x
  refine ⟨during readings records stage, ?_, hk⟩
  change (Option.map Sum.inl (TrialStage.waits started observed armed handedOff op x)).map _ = _
  rw [hwaits]
  rfl

/-- A wait goes on only while it sees zero. -/
theorem follows_recheck {started : ℕ} {armed handedOff : Bool} {p : WaitProg ℕ ℕ}
    (hp : probeProtocol.Follows (waiting p)
      (during readings records (.waiting started 0 armed handedOff))
      (WaitEnded readings records started)) :
    probeProtocol.Follows
      (waiting (.call (.load preflightTarget.address .acquire) fun observed : ℕ =>
        if observed ≠ 0 then pure observed else p))
      (during readings records (.waiting started 0 armed handedOff))
      (WaitEnded readings records started) := by
  apply follows_wait
  intro v
  refine ⟨.waiting started v armed handedOff, rfl, ?_⟩
  by_cases hv : v = 0
  · rw [if_neg (not_not.mpr hv), hv]
    exact hp
  · rw [if_pos hv]
    exact Protocol.follows_ret ⟨armed, handedOff, rfl⟩

theorem follows_lastLoad {started : ℕ} {armed handedOff : Bool} :
    probeProtocol.Follows (waiting (preflightTarget.load .acquire))
      (during readings records (.waiting started 0 armed handedOff))
      (WaitEnded readings records started) := by
  apply follows_wait
  exact fun v => ⟨_, rfl, Protocol.follows_ret ⟨armed, handedOff, rfl⟩⟩

/-- The wait of a trial obeys the protocol of the probe. -/
theorem follows_preflightWaitOnce (config : HardwareConfig) (started : ℕ) :
    probeProtocol.Follows (waiting (preflightWaitOnce config preflightTarget))
      (during readings records (.waiting started 0 false false))
      (WaitEnded readings records started) := by
  unfold preflightWaitOnce
  apply follows_recheck
  cases config with
  | amd config =>
    apply follows_wait fun _ => ⟨.waiting started 0 true false, rfl, ?_⟩
    apply follows_recheck
    apply follows_wait fun _ => ⟨.waiting started 0 true true, rfl, ?_⟩
    apply follows_recheck
    apply follows_wait fun _ => ⟨.waiting started 0 true true, rfl, ?_⟩
    exact follows_lastLoad
  | intel config =>
    apply follows_wait fun _ => ⟨.waiting started 0 true false, rfl, ?_⟩
    apply follows_recheck
    apply follows_wait fun _ => ⟨.waiting started 0 true true, rfl, ?_⟩
    apply follows_recheck
    apply follows_wait fun _ => ⟨.waiting started 0 true true, rfl, ?_⟩
    apply follows_wait fun _ => ⟨.waiting started 0 true true, rfl, ?_⟩
    exact follows_lastLoad

/-- A baseline wait is not recorded. -/
theorem follows_baseline (config : HardwareConfig) : probeProtocol.Follows
    (waiting (hardwareWaitUntimed config baselineTarget 0)) ⟨readings, [], none⟩
    fun _ φ => φ = ⟨readings, [], none⟩ := by
  have hmakes : (hardwareWaitUntimed config baselineTarget 0).Makes
      fun op => op.onBaseline = true := by
    cases config with
    | amd config =>
      exact ⟨rfl, fun v => .ite trivial ⟨rfl, fun _ => ⟨rfl, fun v => .ite trivial ⟨rfl, fun _ =>
        ⟨rfl, fun v => .ite trivial trivial⟩⟩⟩⟩⟩
    | intel config =>
      exact ⟨rfl, fun v => .ite trivial ⟨rfl, fun _ => ⟨rfl, fun v => .ite trivial ⟨rfl, fun _ =>
        ⟨rfl, fun _ => ⟨rfl, fun v => .ite trivial trivial⟩⟩⟩⟩⟩⟩
  have hwaits : (waiting (hardwareWaitUntimed config baselineTarget 0)).Makes fun op =>
      ∃ op', op = .wait op' ∧ op'.onBaseline = true := by
    apply Prog.Makes.handle _ hmakes
    exact fun op hop => ⟨⟨op, rfl, hop⟩, fun _ => trivial⟩
  have hidle : ∀ op (φ : ProbePhase) x, (∃ op', op = .wait op' ∧ op'.onBaseline = true) →
      φ = ⟨readings, [], none⟩ →
      ∃ φ', probeProtocol.next φ op x = some φ' ∧ φ' = ⟨readings, [], none⟩ := by
    rintro _ _ x ⟨op, rfl, hop⟩ rfl
    exact ⟨_, if_pos hop, rfl⟩
  exact Protocol.follows_makes hidle hwaits rfl

open TrialEvent (durations median)

/-- The baselines are the differences of the readings around them. -/
theorem follows_measureBaselines (config : HardwareConfig) (n : ℕ) :
    probeProtocol.Follows (measureBaselines config n) ⟨readings, [], none⟩ fun baselines φ =>
      ∃ new, φ = ⟨readings ++ new, [], none⟩ ∧ new.length = 2 * n ∧ durations new = baselines := by
  induction n generalizing readings with
  | zero => exact Protocol.follows_ret ⟨[], by rw [List.append_nil], rfl, rfl⟩
  | succ n ih =>
    apply Protocol.follows_perform
    intro started
    refine ⟨⟨readings ++ [started], [], none⟩, rfl, ?_⟩
    apply Protocol.follows_bind
    apply Protocol.follows_mono (follows_baseline config)
    rintro _ _ rfl
    apply Protocol.follows_perform
    intro finished
    refine ⟨⟨readings ++ [started] ++ [finished], [], none⟩, rfl, ?_⟩
    apply Protocol.follows_bind
    apply Protocol.follows_mono ih
    rintro rest _ ⟨new, rfl, hlength, rfl⟩
    apply Protocol.follows_ret
    refine ⟨started :: finished :: new, ?_, ?_, rfl⟩
    · simp only [List.append_assoc, List.cons_append, List.nil_append]
    · simp only [List.length_cons, hlength]
      omega

end ProbePhase

def TrialRecord.evidence (record : TrialRecord) (baselineWait : ℕ) : PreflightTrialEvidence :=
  classifyPreflightTrial record.publishedAt record.waitFinished record.observed
    (record.waitFinished - record.started) (wakeThreshold baselineWait)

def TrialRecord.verified (baselineWait : ℕ) (record : TrialRecord) : Bool :=
  (record.evidence baselineWait).verifiedStoreWake

def TrialRecord.overlapped (baselineWait : ℕ) (record : TrialRecord) : Bool :=
  (record.evidence baselineWait).helperOverlapped

/-- The counters after the trials of `records`. -/
def tally (baselineWait : ℕ) (records : List TrialRecord) : TrialCounts where
  attempts := records.length
  verifiedStoreWakes := records.countP (TrialRecord.verified baselineWait)
  helperOverlaps := records.countP (TrialRecord.overlapped baselineWait)

theorem tally_append (baselineWait : ℕ) (records : List TrialRecord) (record : TrialRecord) :
    tally baselineWait (records ++ [record]) =
      (tally baselineWait records).count (record.evidence baselineWait) := by
  simp only [tally, TrialCounts.count, List.length_append, List.length_singleton,
    List.countP_append, List.countP_singleton, TrialRecord.verified, TrialRecord.overlapped]
  rfl

/-- The trials that the loop makes: up to the second verified one, or all sixteen. -/
def Stopped (baselineWait : ℕ) (records : List TrialRecord) : Prop :=
  records.length ≤ preflightStoreAttempts ∧
  ((∃ before last, records = before ++ [last] ∧ last.verified baselineWait = true ∧
      before.countP (TrialRecord.verified baselineWait) = 1) ∨
    records.length = preflightStoreAttempts ∧
      records.countP (TrialRecord.verified baselineWait) < 2)

namespace ProbePhase

open TrialEvent (durations median)

variable {readings : List ℕ} {records : List TrialRecord}

/-- A trial leaves one record, which its evidence is read from. -/
theorem follows_preflightTrial (config : HardwareConfig) (baselineWait : ℕ) :
    probeProtocol.Follows (preflightTrial config baselineWait) ⟨readings, records, none⟩
      fun evidence φ => ∃ record, φ = ⟨readings, records ++ [record], none⟩ ∧
        evidence = record.evidence baselineWait := by
  apply Protocol.follows_perform
  intro _
  refine ⟨during readings records .spawned, rfl, ?_⟩
  apply Protocol.follows_perform
  intro started
  refine ⟨during readings records (.waiting started 0 false false), rfl, ?_⟩
  apply Protocol.follows_bind
  apply Protocol.follows_mono (follows_preflightWaitOnce config started)
  rintro observed _ ⟨armed, handedOff, rfl⟩
  apply Protocol.follows_perform
  intro waitFinished
  refine ⟨during readings records (.finished started observed waitFinished), rfl, ?_⟩
  apply Protocol.follows_perform
  intro publishedAt
  refine ⟨_, rfl, ?_⟩
  apply Protocol.follows_ret
  exact ⟨⟨started, waitFinished, observed, publishedAt⟩, rfl, rfl⟩

/-- The trials are made until two are verified or none is left. -/
theorem follows_storeTrials (config : HardwareConfig) (baselineWait n : ℕ)
    (hlength : records.length + n = preflightStoreAttempts)
    (hverified : records.countP (TrialRecord.verified baselineWait) < 2) :
    probeProtocol.Follows (storeTrials config baselineWait n (tally baselineWait records))
      ⟨readings, records, none⟩ fun counts φ => ∃ records', φ = ⟨readings, records', none⟩ ∧
        counts = tally baselineWait records' ∧ Stopped baselineWait records' := by
  induction n generalizing records with
  | zero =>
    apply Protocol.follows_ret
    exact ⟨records, rfl, rfl, Nat.le_of_eq hlength, Or.inr ⟨hlength, hverified⟩⟩
  | succ n ih =>
    apply Protocol.follows_bind
    apply Protocol.follows_mono (follows_preflightTrial config baselineWait)
    rintro _ _ ⟨record, rfl, rfl⟩
    have hlength' : (records ++ [record]).length + n = preflightStoreAttempts := by
      rw [List.length_append, List.length_singleton]
      omega
    dsimp only
    rw [← tally_append]
    split
    · next h =>
      apply Protocol.follows_ret
      refine ⟨records ++ [record], rfl, rfl, by omega, Or.inl ⟨records, record, rfl, h.1, ?_⟩⟩
      have htwo := h.2
      simp only [tally, List.countP_append, List.countP_singleton,
        preflightRequiredStoreObservations] at htwo
      split at htwo <;> omega
    · next h =>
      apply ih hlength'
      rw [List.countP_append, List.countP_singleton]
      split
      · next hv =>
        by_contra hcount
        apply h
        refine ⟨hv, ?_⟩
        simp only [tally, List.countP_append, List.countP_singleton, if_pos hv,
          preflightRequiredStoreObservations]
        omega
      · omega

/-- The waiter's calls determine its verdict. -/
def Concluded (config : HardwareConfig) (r : Except HardwareWaitError PreflightReport)
    (φ : ProbePhase) : Prop :=
  ∃ readings records, φ = ⟨readings, records, none⟩ ∧
    (durations readings).length = preflightBaselineAttempts ∧
    (median (durations readings) < preflightMinBlock ∧ records = [] ∧
        r = .error (.preflightFailed config.backend .waitDidNotBlock) ∨
      preflightMinBlock ≤ median (durations readings) ∧
        Stopped (median (durations readings)) records ∧
        r = concludePreflight config.backend records.length
          (records.countP (TrialRecord.verified (median (durations readings))))
          (records.countP (TrialRecord.overlapped (median (durations readings))))
          (median (durations readings)))

/-- Two readings make a duration. -/
theorem length_durations {l : List ℕ} {n : ℕ} (h : l.length = 2 * n) :
    (durations l).length = n := by
  induction n generalizing l with
  | zero =>
    rw [List.length_eq_zero_iff.mp h]
    rfl
  | succ n ih =>
    match l with
    | [] => exact absurd h (by simp)
    | [a] =>
      rw [List.length_singleton] at h
      omega
    | a :: b :: rest =>
      rw [List.length_cons, List.length_cons] at h
      rw [durations, List.length_cons, ih (by omega)]

/-- The whole preflight obeys the protocol of the probe. -/
theorem follows_functionalPreflight (config : HardwareConfig) :
    probeProtocol.Follows (functionalPreflight config).run ⟨[], [], none⟩ (Concluded config) := by
  unfold functionalPreflight
  rw [unfailing, lift_bind_run]
  apply Protocol.follows_bind
  apply Protocol.follows_mono (follows_measureBaselines config preflightBaselineAttempts)
  rintro _ _ ⟨readings, rfl, hlength, rfl⟩
  have hbaselines := length_durations hlength
  dsimp only
  split
  · next hmin =>
    apply Protocol.follows_ret
    exact ⟨readings, [], rfl, hbaselines, Or.inl ⟨hmin, rfl, rfl⟩⟩
  · next hmin =>
    rw [unfailing, lift_bind_run]
    apply Protocol.follows_bind
    have htrials : probeProtocol.Follows (storeTrials config (median (durations readings))
        preflightStoreAttempts (tally (median (durations readings)) [])) ⟨readings, [], none⟩
        fun counts φ => ∃ records, φ = ⟨readings, records, none⟩ ∧
          counts = tally (median (durations readings)) records ∧
          Stopped (median (durations readings)) records :=
      follows_storeTrials config _ preflightStoreAttempts rfl Nat.two_pos
    apply Protocol.follows_mono htrials
    rintro _ _ ⟨records, rfl, rfl, hstopped⟩
    apply Protocol.follows_ret
    exact ⟨readings, records, rfl, hbaselines, Or.inr ⟨not_lt.mp hmin, hstopped, rfl⟩⟩

end ProbePhase

namespace TrialEvent

/-- What a trial has to show of itself. -/
structure Shows (log : List TrialEvent) (trial : ℕ) (readings' loads' : List ℕ)
    (receipts' : List (Option ℕ)) : Prop where
  readings : readings log trial = readings'
  loads : loads log trial = loads'
  receipts : receipts log trial = receipts'

/-- The event belongs to what the waiter of the trial collects. -/
def collected (trial : ℕ) : TrialEvent → Bool
  | reading k _ | loaded k _ | received k _ => k = trial
  | _ => false

variable {log pre : List TrialEvent} {e : TrialEvent} {k : ℕ} {rs ls : List ℕ}
  {ps : List (Option ℕ)}

/-- An event of another trial shows nothing of this one. -/
theorem Shows.other (h : Shows log k rs ls ps) (he : e.collected k = false) :
    Shows (log ++ [e]) k rs ls ps := by
  obtain ⟨rfl, rfl, rfl⟩ := h
  cases e with
  | reading j x =>
    have hj : ¬ j = k := of_decide_eq_false he
    constructor <;> simp [TrialEvent.readings, TrialEvent.loads, TrialEvent.receipts, hj]
  | loaded j v =>
    have hj : ¬ j = k := of_decide_eq_false he
    constructor <;> simp [TrialEvent.readings, TrialEvent.loads, TrialEvent.receipts, hj]
  | received j p =>
    have hj : ¬ j = k := of_decide_eq_false he
    constructor <;> simp [TrialEvent.readings, TrialEvent.loads, TrialEvent.receipts, hj]
  | _ => constructor <;> simp [TrialEvent.readings, TrialEvent.loads, TrialEvent.receipts]

theorem Shows.reading (h : Shows log k rs ls ps) (x : ℕ) :
    Shows (log ++ [.reading k x]) k (rs ++ [x]) ls ps := by
  obtain ⟨rfl, rfl, rfl⟩ := h
  constructor <;> simp [TrialEvent.readings, TrialEvent.loads, TrialEvent.receipts]

theorem Shows.loaded (h : Shows log k rs ls ps) (v : ℕ) :
    Shows (log ++ [.loaded k v]) k rs (ls ++ [v]) ps := by
  obtain ⟨rfl, rfl, rfl⟩ := h
  constructor <;> simp [TrialEvent.readings, TrialEvent.loads, TrialEvent.receipts]

theorem Shows.received (h : Shows log k rs ls ps) (p : Option ℕ) :
    Shows (log ++ [.received k p]) k rs ls (ps ++ [p]) := by
  obtain ⟨rfl, rfl, rfl⟩ := h
  constructor <;> simp [TrialEvent.readings, TrialEvent.loads, TrialEvent.receipts]

/-- What must have happened before an event: nothing is stored before the handoff, handed off
before the monitor is armed, or seen before it is stored. -/
def Justified (pre : List TrialEvent) : TrialEvent → Prop
  | .handedOff k => .armed k ∈ pre
  | .stored k => .handedOff k ∈ pre
  | .loaded k v => v ≠ 0 → .stored k ∈ pre
  | _ => True

def Orderly (log : List TrialEvent) : Prop :=
  ∀ pre e post, log = pre ++ e :: post → Justified pre e

/-- A justified event keeps the log in order. -/
theorem Orderly.append (h : Orderly log) (he : Justified log e) : Orderly (log ++ [e]) := by
  intro pre e' post hsplit
  rcases List.append_eq_append_iff.mp hsplit with ⟨l, rfl, hl⟩ | ⟨l, rfl, hl⟩
  · cases l with
    | nil =>
      obtain ⟨rfl, rfl⟩ := List.cons.inj hl
      rwa [List.append_nil]
    | cons a l => simp at hl
  · cases l with
    | nil =>
      rw [List.nil_append] at hl
      obtain ⟨rfl, rfl⟩ := List.cons.inj hl
      rwa [List.append_nil] at he
    | cons a l =>
      obtain ⟨rfl, rfl⟩ := List.cons.inj hl
      exact h pre _ l rfl

/-- Whoever sees a value sees it after the store, the handoff and the arm, in this order. -/
theorem Orderly.observed (h : Orderly log) {v : ℕ} (hv : v ≠ 0)
    (hmem : TrialEvent.loaded k v ∈ log) : ∃ l₁ l₂ l₃, .armed k ∈ l₁ ∧ .loaded k v ∈ l₃ ∧
      log = l₁ ++ .handedOff k :: (l₂ ++ .stored k :: l₃) := by
  obtain ⟨pre, post, rfl⟩ := List.append_of_mem hmem
  have hstored : .stored k ∈ pre := h pre _ post rfl hv
  obtain ⟨pre, l₃, rfl⟩ := List.append_of_mem hstored
  have hhanded : .handedOff k ∈ pre := h pre (.stored k) (l₃ ++ .loaded k v :: post) (by simp)
  obtain ⟨l₁, l₂, rfl⟩ := List.append_of_mem hhanded
  have harmed : .armed k ∈ l₁ :=
    h l₁ (.handedOff k) (l₂ ++ .stored k :: l₃ ++ .loaded k v :: post) (by simp)
  exact ⟨l₁, l₂, l₃ ++ .loaded k v :: post, harmed, by simp, by simp⟩

end TrialEvent

inductive HelperPhase where
  | waiting | released | stored
  deriving DecidableEq, Repr

/-- A helper stores only behind a handoff that it has seen. -/
def helperProtocol : Protocol TrialOp TrialAns HelperPhase where
  next
    | .waiting, .loadHandoff, (handedOff : Bool) => some (if handedOff then .released else .waiting)
    | .released, .storeTarget, _ => some .stored
    | _, .storeTarget, _ => none
    | _, .loadHandoff, _ => none
    | _, .waiter _, _ => none
    | φ, _, _ => some φ

/-- The helper obeys its protocol. -/
theorem follows_preflightHelper :
    helperProtocol.Follows preflightHelper .waiting fun _ _ => True := by
  apply Protocol.follows_perform
  intro producerDelay
  refine ⟨.waiting, rfl, Protocol.follows_perform fun started => ⟨.waiting, rfl, ?_⟩⟩
  apply Protocol.follows_loop
  apply Protocol.follows_perform
  intro handedOff
  cases handedOff with
  | true =>
    refine ⟨.released, rfl, Protocol.follows_ret ?_⟩
    apply Protocol.follows_perform
    intro delayStarted
    refine ⟨.released, rfl, ?_⟩
    apply Protocol.follows_loop
    apply Protocol.follows_perform
    intro now
    refine ⟨.released, rfl, ?_⟩
    split
    · exact Protocol.follows_perform fun _ => ⟨.released, rfl, Protocol.follows_ret rfl⟩
    · apply Protocol.follows_ret
      apply Protocol.follows_perform
      intro _
      refine ⟨.stored, rfl, Protocol.follows_perform fun published => ⟨.stored, rfl, ?_⟩⟩
      exact Protocol.follows_call fun _ => ⟨.stored, rfl, Protocol.follows_ret trivial⟩
  | false =>
    refine ⟨.waiting, rfl, Protocol.follows_perform fun now => ⟨.waiting, rfl, ?_⟩⟩
    split
    · apply Protocol.follows_ret
      exact Protocol.follows_call fun _ => ⟨.waiting, rfl, Protocol.follows_ret trivial⟩
    · exact Protocol.follows_perform fun _ => ⟨.waiting, rfl, Protocol.follows_ret rfl⟩

open TrialEvent (Shows Justified Orderly)

/-- A completed trial as the record shows it; a value that was seen was seen before the second
reading of the clock. -/
def Recorded (log : List TrialEvent) (trial : ℕ) (record : TrialRecord) : Prop :=
  ∃ loads, Shows log trial [record.started, record.waitFinished] loads [record.publishedAt] ∧
    loads.getLastD 0 = record.observed ∧
    (record.observed ≠ 0 → ∃ pre post, log = pre ++ .reading trial record.waitFinished :: post ∧
      .loaded trial record.observed ∈ pre)

def Staged (log : List TrialEvent) (trial : ℕ) : TrialStage → Prop
  | .spawned => Shows log trial [] [] []
  | .waiting started observed armed _ => (∃ loads, Shows log trial [started] loads [] ∧
      loads.getLastD 0 = observed) ∧ (observed ≠ 0 → .loaded trial observed ∈ log) ∧
      (armed = true → .armed trial ∈ log)
  | .finished started observed waitFinished => ∃ loads,
      Shows log trial [started, waitFinished] loads [] ∧ loads.getLastD 0 = observed ∧
      (observed ≠ 0 → ∃ pre post, log = pre ++ .reading trial waitFinished :: post ∧
        .loaded trial observed ∈ pre)

/-- The number of the trial under way, or else of the last one. -/
def ProbePhase.trial (φ : ProbePhase) : ℕ := φ.records.length + if φ.stage.isSome then 1 else 0

/-- What the waiter has collected is what the record shows. -/
structure Kept (φ : ProbePhase) (log : List TrialEvent) : Prop where
  baselines : Shows log 0 φ.readings [] []
  records : ∀ i record, φ.records[i]? = some record → Recorded log (i + 1) record
  stage : ∀ stage, φ.stage = some stage → Staged log φ.trial stage
  future : ∀ k, φ.trial < k → Shows log k [] [] []

section Kept

variable {log : List TrialEvent} {e : TrialEvent} {k : ℕ} {φ : ProbePhase}

theorem Recorded.other {record : TrialRecord} (h : Recorded log k record)
    (he : e.collected k = false) : Recorded (log ++ [e]) k record := by
  obtain ⟨loads, hshows, hlast, hseen⟩ := h
  refine ⟨loads, hshows.other he, hlast, fun hv => ?_⟩
  obtain ⟨pre, post, rfl, hmem⟩ := hseen hv
  exact ⟨pre, post ++ [e], by simp, hmem⟩

/-- An event of another trial leaves the stage of this one. -/
theorem Staged.other {stage : TrialStage} (h : Staged log k stage) (he : e.collected k = false) :
    Staged (log ++ [e]) k stage := by
  cases stage with
  | spawned => exact Shows.other h he
  | waiting started observed armed handedOff =>
    obtain ⟨⟨loads, hshows, hlast⟩, hseen, harmed⟩ := h
    exact ⟨⟨loads, hshows.other he, hlast⟩, fun hv => List.mem_append_left _ (hseen hv),
      fun ha => List.mem_append_left _ (harmed ha)⟩
  | finished started observed waitFinished =>
    obtain ⟨loads, hshows, hlast, hseen⟩ := h
    refine ⟨loads, hshows.other he, hlast, fun hv => ?_⟩
    obtain ⟨pre, post, rfl, hmem⟩ := hseen hv
    exact ⟨pre, post ++ [e], by simp, hmem⟩

/-- An event that is not collected changes nothing. -/
theorem Kept.other (h : Kept φ log) (he : ∀ k, e.collected k = false) : Kept φ (log ++ [e]) where
  baselines := h.baselines.other (he 0)
  records i record hi := (h.records i record hi).other (he _)
  stage stage hs := (h.stage stage hs).other (he _)
  future k hk := (h.future k hk).other (he k)

/-- An event of the trial under way leaves the others as they are. -/
theorem Kept.moved {stage stage' : TrialStage} (h : Kept φ log) (hφ : φ.stage = some stage)
    (he : ∀ k, k ≠ φ.trial → e.collected k = false)
    (hstage : Staged (log ++ [e]) φ.trial stage') :
    Kept { φ with stage := some stage' } (log ++ [e]) := by
  have htrial : ProbePhase.trial { φ with stage := some stage' } = φ.trial := by
    simp only [ProbePhase.trial, hφ, Option.isSome_some]
  have hpos : φ.trial = φ.records.length + 1 := by
    simp only [ProbePhase.trial, hφ, Option.isSome_some, if_true]
  constructor
  · exact h.baselines.other (he 0 (by omega))
  · intro i record hi
    have hlt := (List.getElem?_eq_some_iff.mp hi).1
    apply (h.records i record hi).other
    apply he
    dsimp only at hlt
    omega
  · rintro _ ⟨⟩
    rw [htrial]
    exact hstage
  · intro k hk
    rw [htrial] at hk
    exact (h.future k hk).other (he k (by omega))

end Kept

/-- The waiter's phase, the helpers' phases and the record fit together. -/
structure TrialInv (φ : ProbePhase) (h : ℕ → HelperPhase) (s : TrialWorld) : Prop where
  trials : s.trials = φ.trial
  kept : Kept φ s.log
  orderly : Orderly s.log
  handoff : ∀ k, s.handoff k = true → .handedOff k ∈ s.log
  released : ∀ k, h k ≠ .waiting → .handedOff k ∈ s.log
  target : ∀ k, s.target k ≠ 0 → .stored k ∈ s.log

section TrialInv

variable {φ φ' : ProbePhase} {h h' : ℕ → HelperPhase} {s s' : TrialWorld} {e : TrialEvent}

/-- The invariant survives an event that is justified and recorded. -/
theorem TrialInv.grow (hinv : TrialInv φ h s) (hlog : s'.log = s.log ++ [e])
    (htrials : s'.trials = φ'.trial) (hkept : Kept φ' (s.log ++ [e]))
    (hjust : Justified s.log e)
    (hhandoff : ∀ k, s'.handoff k = true → s.handoff k = true ∨ e = .handedOff k)
    (htarget : ∀ k, s'.target k ≠ 0 → s.target k ≠ 0 ∨ e = .stored k)
    (hreleased : ∀ k, h' k ≠ .waiting → h k ≠ .waiting) : TrialInv φ' h' s' where
  trials := htrials
  kept := by rwa [hlog]
  orderly := by
    rw [hlog]
    exact hinv.orderly.append hjust
  handoff k hk := by
    rw [hlog]
    rcases hhandoff k hk with hk | rfl
    · exact List.mem_append_left _ (hinv.handoff k hk)
    · exact List.mem_append_right _ List.mem_cons_self
  released k hk := by
    rw [hlog]
    exact List.mem_append_left _ (hinv.released k (hreleased k hk))
  target k hk := by
    rw [hlog]
    rcases htarget k hk with hk | rfl
    · exact List.mem_append_left _ (hinv.target k hk)
    · exact List.mem_append_right _ List.mem_cons_self

/-- A move that records nothing. -/
theorem TrialInv.quiet (hinv : TrialInv φ h s) (hlog : s'.log = s.log)
    (htrials : s'.trials = φ'.trial) (hkept : Kept φ' s.log) (hhandoff : s'.handoff = s.handoff)
    (htarget : s'.target = s.target)
    (hreleased : ∀ k, h' k ≠ .waiting → h k ≠ .waiting ∨ .handedOff k ∈ s.log) :
    TrialInv φ' h' s' where
  trials := htrials
  kept := by rwa [hlog]
  orderly := by
    rw [hlog]
    exact hinv.orderly
  handoff := by
    rw [hlog, hhandoff]
    exact hinv.handoff
  released k hk := by
    rw [hlog]
    rcases hreleased k hk with hk | hk
    · exact hinv.released k hk
    · exact hk
  target := by
    rw [hlog, htarget]
    exact hinv.target

theorem ProbePhase.trial_stage {stage stage' : TrialStage} (hφ : φ.stage = some stage) :
    ProbePhase.trial { φ with stage := some stage' } = φ.trial := by
  simp only [ProbePhase.trial, hφ, Option.isSome_some]

/-- The calls of `preflight_wait_once` on the target of the trial. -/
theorem TrialInv.waits (hinv : TrialInv φ h s) {started observed : ℕ} {armed handedOff : Bool}
    (hφ : φ.stage = some (.waiting started observed armed handedOff)) {op : WaitOp ℕ}
    {x : WaitAns ℕ op} {stage : TrialStage}
    (hnext : TrialStage.waits started observed armed handedOff op x = some stage)
    (hact : TrialWorld.actWait op s x s') : TrialInv { φ with stage := some stage } h s' := by
  obtain ⟨⟨loads, hshows, hlast⟩, hseen, harmed⟩ := hinv.kept.stage _ hφ
  have htrials : s.trials = ProbePhase.trial { φ with stage := some stage } := by
    rw [ProbePhase.trial_stage hφ]
    exact hinv.trials
  have hquiet : stage = .waiting started observed armed handedOff → s' = s →
      TrialInv { φ with stage := some stage } h s' := by
    rintro rfl rfl
    rwa [← hφ]
  have harm : (∃ b, stage = .waiting started observed true b) → s' = s.record (.armed s.trials) →
      TrialInv { φ with stage := some stage } h s' := by
    rintro ⟨b, rfl⟩ rfl
    refine hinv.grow (e := .armed s.trials) rfl htrials ?_ trivial (fun k hk => Or.inl hk)
      (fun k hk => Or.inl hk) (fun k hk => hk)
    apply hinv.kept.moved hφ fun k _ => rfl
    refine ⟨⟨loads, hshows.other rfl, hlast⟩, fun hv => List.mem_append_left _ (hseen hv),
      fun _ => ?_⟩
    rw [hinv.trials]
    exact List.mem_append_right _ List.mem_cons_self
  cases op with
  | load address ordering =>
    by_cases haddress : address = preflightTarget.address
    · obtain ⟨hx, hs'⟩ := hact
      have hstage : stage = .waiting started x armed handedOff := by
        simpa [TrialStage.waits, haddress] using hnext.symm
      have hvalue : x = s.target s.trials := by
        rw [hx, TrialWorld.read, if_pos haddress]
      rw [if_pos haddress] at hs'
      subst hs' hstage
      refine hinv.grow (e := .loaded s.trials x) rfl htrials ?_ ?_ (fun k hk => Or.inl hk)
        (fun k hk => Or.inl hk) (fun k hk => hk)
      · apply hinv.kept.moved hφ
        · intro k hk
          rw [← hinv.trials] at hk
          exact decide_eq_false (Ne.symm hk)
        · rw [hinv.trials]
          refine ⟨⟨loads ++ [x], hshows.loaded x, List.getLastD_concat ..⟩, ?_, ?_⟩
          · exact fun _ => List.mem_append_right _ List.mem_cons_self
          · exact fun ha => List.mem_append_left _ (harmed ha)
      · -- A value other than zero is the helper's.
        intro hx0
        apply hinv.target
        rwa [← hvalue]
    · simp [TrialStage.waits, haddress] at hnext
  | monitorx address =>
    by_cases haddress : address = preflightTarget.address
    · apply harm
      · exact ⟨handedOff, by simpa [TrialStage.waits, haddress] using hnext.symm⟩
      · have hs' : s' = if address = preflightTarget.address then _ else _ := hact
        rwa [if_pos haddress] at hs'
    · simp [TrialStage.waits, haddress] at hnext
  | umonitor address =>
    by_cases haddress : address = preflightTarget.address
    · apply harm
      · exact ⟨handedOff, by simpa [TrialStage.waits, haddress] using hnext.symm⟩
      · have hs' : s' = if address = preflightTarget.address then _ else _ := hact
        rwa [if_pos haddress] at hs'
    · simp [TrialStage.waits, haddress] at hnext
  | storeHandoff =>
    cases armed with
    | false => exact nomatch hnext
    | true =>
      cases hnext
      have hs' : s' = { s.record (.handedOff s.trials) with
          handoff := Function.update s.handoff s.trials true } := hact
      subst hs'
      refine hinv.grow (e := .handedOff s.trials) rfl htrials ?_ ?_ ?_ (fun k hk => Or.inl hk)
        (fun k hk => hk)
      · apply hinv.kept.moved hφ fun k _ => rfl
        exact ⟨⟨loads, hshows.other rfl, hlast⟩, fun hv => List.mem_append_left _ (hseen hv),
          fun ha => List.mem_append_left _ (harmed ha)⟩
      · change TrialEvent.armed s.trials ∈ s.log
        rw [hinv.trials]
        exact harmed rfl
      · intro k hk
        by_cases hkt : k = s.trials
        · exact Or.inr (congrArg _ hkt.symm)
        · dsimp only at hk
          rw [Function.update_of_ne hkt] at hk
          exact Or.inl hk
  | mwaitx cycles hint => exact hquiet (Option.some.inj hnext).symm hact
  | umwaitC01 deadline => exact hquiet (Option.some.inj hnext).symm hact
  | readTscOrdered => exact hquiet (Option.some.inj hnext).symm hact
  | _ => exact nomatch hnext

/-- The waits of the baselines are not recorded. -/
theorem actWait_onBaseline {op : WaitOp ℕ} {x : WaitAns ℕ op} (hop : op.onBaseline = true)
    (hact : TrialWorld.actWait op s x s') : s' = s := by
  have haddress : ∀ address, address = baselineTarget.address →
      ¬ address = preflightTarget.address := by
    rintro _ rfl
    decide
  cases op with
  | load address ordering =>
    have hs' := hact.2
    rwa [if_neg (haddress address (of_decide_eq_true hop))] at hs'
  | monitorx address =>
    have hs' : s' = if address = preflightTarget.address then _ else _ := hact
    rwa [if_neg (haddress address (of_decide_eq_true hop))] at hs'
  | umonitor address =>
    have hs' : s' = if address = preflightTarget.address then _ else _ := hact
    rwa [if_neg (haddress address (of_decide_eq_true hop))] at hs'
  | mwaitx cycles hint => exact hact
  | umwaitC01 deadline => exact hact
  | readTscOrdered => exact hact
  | _ => exact nomatch hop

theorem TrialInv.record (hinv : TrialInv φ h s) (hlog : s'.log = s.log ++ [e])
    (htrials : s'.trials = φ'.trial) (hkept : Kept φ' (s.log ++ [e])) (hjust : Justified s.log e)
    (hhandoff : s'.handoff = s.handoff) (htarget : s'.target = s.target) : TrialInv φ' h s' := by
  apply hinv.grow hlog htrials hkept hjust
  · rw [hhandoff]
    exact fun k hk => Or.inl hk
  · rw [htarget]
    exact fun k hk => Or.inl hk
  · exact fun k hk => hk

/-- The waiter between two trials. -/
theorem TrialInv.idle (hinv : TrialInv φ h s) (hφ : φ.stage = none) {op : PreflightOp}
    {x : PreflightAns op} (hnext : φ.idleNext op x = some φ')
    (hact : TrialWorld.actWaiter op s x s') : TrialInv φ' h s' := by
  have htrial : φ.trial = φ.records.length := by
    simp only [ProbePhase.trial, hφ, Option.isSome_none, Bool.false_eq_true, if_false, Nat.add_zero]
  cases op with
  | startTrial producerDelay =>
    cases hnext
    have hs' : s' = _ := hact
    subst hs'
    have htrial' : ProbePhase.trial { φ with stage := some .spawned } = φ.trial + 1 := by
      simp only [ProbePhase.trial, hφ, Option.isSome_some, Option.isSome_none, if_true,
        Bool.false_eq_true, if_false, Nat.add_zero]
    refine hinv.quiet rfl ?_ ?_ rfl rfl fun k hk => Or.inl hk
    · rw [htrial']
      exact congrArg (· + 1) hinv.trials
    · constructor
      · exact hinv.kept.baselines
      · exact hinv.kept.records
      · rintro _ ⟨⟩
        rw [htrial']
        exact hinv.kept.future _ (Nat.lt_succ_self _)
      · intro k hk
        rw [htrial'] at hk
        exact hinv.kept.future k (by omega)
  | instantNow =>
    obtain ⟨_, hs'⟩ := hact
    subst hs'
    have hrecords : φ.records = [] := by
      by_contra hne
      simp [ProbePhase.idleNext, hne] at hnext
    have hφ' : φ' = { φ with readings := φ.readings ++ [x] } := by
      simpa [ProbePhase.idleNext, hrecords] using hnext.symm
    have hzero : φ.trial = 0 := by
      rw [htrial, hrecords]
      rfl
    subst hφ'
    refine hinv.record (e := .reading s.trials x) rfl hinv.trials ?_ trivial rfl rfl
    rw [hinv.trials, hzero]
    constructor
    · exact hinv.kept.baselines.reading x
    · intro i record hi
      rw [hrecords] at hi
      exact nomatch hi
    · intro stage hs
      rw [hφ] at hs
      exact nomatch hs
    · intro k hk
      have hk0 : 0 < k := by
        rw [← hzero]
        exact hk
      apply (hinv.kept.future k hk).other
      exact decide_eq_false (by omega)
  | wait op =>
    have hnext : (if op.onBaseline then some φ else none) = some φ' := hnext
    have hbaseline : op.onBaseline = true ∧ φ = φ' := by
      split at hnext
      · next hop => exact ⟨hop, Option.some.inj hnext⟩
      · exact nomatch hnext
    obtain ⟨hop, rfl⟩ := hbaseline
    rwa [actWait_onBaseline hop hact]
  | _ => exact nomatch hnext

/-- The waiter in a trial. -/
theorem TrialInv.inTrial (hinv : TrialInv φ h s) {stage : TrialStage} (hφ : φ.stage = some stage)
    {op : PreflightOp} {x : PreflightAns op} {next : TrialStage ⊕ TrialRecord}
    (hnext : stage.next op x = some next) (hact : TrialWorld.actWaiter op s x s') :
    TrialInv (φ.moved next) h s' := by
  have hstage := hinv.kept.stage stage hφ
  have hother : ∀ x k, k ≠ φ.trial → (TrialEvent.reading s.trials x).collected k = false := by
    intro x k hk
    rw [← hinv.trials] at hk
    exact decide_eq_false (Ne.symm hk)
  cases stage with
  | spawned =>
    cases op with
    | instantNow =>
      cases hnext
      obtain ⟨_, rfl⟩ := hact
      refine hinv.record (e := .reading s.trials x) rfl ?_ ?_ trivial rfl rfl
      · exact hinv.trials.trans (ProbePhase.trial_stage hφ).symm
      · apply hinv.kept.moved hφ (hother x)
        rw [hinv.trials]
        exact ⟨⟨[], Shows.reading hstage x, rfl⟩, fun hv => absurd rfl hv, fun ha => nomatch ha⟩
    | _ => exact nomatch hnext
  | waiting started observed armed handedOff =>
    cases op with
    | instantNow =>
      cases hnext
      obtain ⟨_, rfl⟩ := hact
      obtain ⟨⟨loads, hshows, hlast⟩, hseen, _⟩ := hstage
      refine hinv.record (e := .reading s.trials x) rfl ?_ ?_ trivial rfl rfl
      · exact hinv.trials.trans (ProbePhase.trial_stage hφ).symm
      · apply hinv.kept.moved hφ (hother x)
        rw [hinv.trials]
        exact ⟨loads, hshows.reading x, hlast, fun hv => ⟨s.log, [], rfl, hseen hv⟩⟩
    | wait op =>
      obtain ⟨stage, hwaits, rfl⟩ := Option.map_eq_some_iff.mp hnext
      exact hinv.waits hφ hwaits hact
    | _ => exact nomatch hnext
  | finished started observed waitFinished =>
    cases op with
    | receive =>
      cases hnext
      obtain ⟨_, rfl⟩ := hact
      obtain ⟨loads, hshows, hobserved, hseen⟩ := hstage
      have hopen : φ.trial = φ.records.length + 1 := by
        simp only [ProbePhase.trial, hφ, Option.isSome_some, if_true]
      have hclosed : (φ.moved (.inr ⟨started, waitFinished, observed, x⟩)).trial = φ.trial := by
        rw [hopen]
        simp only [ProbePhase.trial, ProbePhase.moved, List.length_append, List.length_singleton,
          Option.isSome_none, Bool.false_eq_true, if_false, Nat.add_zero]
      have hleft : ∀ k, k ≠ φ.trial → (TrialEvent.received s.trials x).collected k = false := by
        intro k hk
        rw [← hinv.trials] at hk
        exact decide_eq_false (Ne.symm hk)
      refine hinv.record (e := .received s.trials x) rfl ?_ ?_ trivial rfl rfl
      · exact hinv.trials.trans hclosed.symm
      · constructor
        · exact hinv.kept.baselines.other (hleft 0 (by omega))
        · intro i record hi
          change (φ.records ++ [_])[i]? = some record at hi
          rcases Nat.lt_or_ge i φ.records.length with hlt | hge
          · rw [List.getElem?_append_left hlt] at hi
            exact (hinv.kept.records i record hi).other (hleft _ (by omega))
          · rw [List.getElem?_append_right hge] at hi
            have hlast : i = φ.records.length := by
              have hlt := (List.getElem?_eq_some_iff.mp hi).1
              rw [List.length_singleton] at hlt
              omega
            rw [hlast, Nat.sub_self, List.getElem?_cons_zero] at hi
            cases hi
            rw [hlast, ← hopen, hinv.trials]
            refine ⟨loads, hshows.received x, hobserved, fun hv => ?_⟩
            obtain ⟨pre, post, hlog, hmem⟩ := hseen hv
            rw [hlog]
            exact ⟨pre, post ++ [.received φ.trial x], by simp, hmem⟩
        · intro stage hs
          exact nomatch hs
        · intro k hk
          rw [hclosed] at hk
          exact (hinv.kept.future k hk).other (hleft k (by omega))
    | _ => exact nomatch hnext

theorem TrialInv.waiter (hinv : TrialInv φ h s) {op : PreflightOp} {x : PreflightAns op}
    (hnext : probeProtocol.next φ op x = some φ') (hact : TrialWorld.actWaiter op s x s') :
    TrialInv φ' h s' := by
  cases hφ : φ.stage with
  | none =>
    simp only [probeProtocol, hφ] at hnext
    exact hinv.idle hφ hnext hact
  | some stage =>
    simp only [probeProtocol, hφ] at hnext
    obtain ⟨next, hstage, rfl⟩ := Option.map_eq_some_iff.mp hnext
    exact hinv.inTrial hφ hstage hact

/-- A helper moves. -/
theorem TrialInv.helper (hinv : TrialInv φ h s) {trial : ℕ} {op : TrialOp} {x : TrialAns op}
    {phase : HelperPhase} (hnext : helperProtocol.next (h trial) op x = some phase)
    (hact : TrialWorld.actHelper trial op s x s')
    (hh : h' = Function.update h trial phase) : TrialInv φ h' s' := by
  have hstays : phase = h trial → ∀ k, h' k ≠ .waiting → h k ≠ .waiting := by
    intro hphase k hk
    rw [hh, hphase, Function.update_eq_self] at hk
    exact hk
  have hquiet : phase = h trial → s'.log = s.log → s'.trials = s.trials →
      s'.handoff = s.handoff → s'.target = s.target → TrialInv φ h' s' := by
    intro hphase hlog htrials hhandoff htarget
    refine hinv.quiet hlog (htrials.trans hinv.trials) hinv.kept hhandoff htarget fun k hk => ?_
    exact Or.inl (hstays hphase k hk)
  cases op with
  | loadHandoff =>
    obtain ⟨hx, rfl⟩ := hact
    cases hp : h trial with
    | waiting =>
      rw [hp] at hnext
      have hphase : (if x then HelperPhase.released else .waiting) = phase := Option.some.inj hnext
      refine hinv.quiet rfl hinv.trials hinv.kept rfl rfl fun k hk => ?_
      rw [hh] at hk
      by_cases hk' : k = trial
      · subst hk'
        rw [Function.update_self, ← hphase] at hk
        cases x with
        | false => exact absurd rfl hk
        | true => exact Or.inr (hinv.handoff k hx.symm)
      · rw [Function.update_of_ne hk'] at hk
        exact Or.inl hk
    | released =>
      rw [hp] at hnext
      exact nomatch hnext
    | stored =>
      rw [hp] at hnext
      exact nomatch hnext
  | storeTarget =>
    cases hp : h trial with
    | released =>
      rw [hp] at hnext
      have hs' : s' = { s.record (.stored trial) with
          target := Function.update s.target trial 1 } := hact
      subst hs'
      refine hinv.grow (e := .stored trial) rfl hinv.trials (hinv.kept.other fun k => rfl) ?_
        (fun k hk => Or.inl hk) ?_ ?_
      · apply hinv.released
        rw [hp]
        decide
      · intro k hk
        by_cases hk' : k = trial
        · exact Or.inr (congrArg _ hk'.symm)
        · dsimp only at hk
          rw [Function.update_of_ne hk'] at hk
          exact Or.inl hk
      · intro k hk
        rw [hh] at hk
        by_cases hk' : k = trial
        · rw [hk', hp]
          decide
        · rwa [Function.update_of_ne hk'] at hk
    | waiting =>
      rw [hp] at hnext
      exact nomatch hnext
    | stored =>
      rw [hp] at hnext
      exact nomatch hnext
  | begin =>
    obtain ⟨_, _, _, rfl⟩ := hact
    refine hquiet ?_ rfl rfl rfl rfl
    cases hp : h trial with
    | _ =>
      rw [hp] at hnext
      exact (Option.some.inj hnext).symm
  | now =>
    obtain ⟨_, rfl⟩ := hact
    refine hquiet ?_ rfl rfl rfl rfl
    cases hp : h trial with
    | _ =>
      rw [hp] at hnext
      exact (Option.some.inj hnext).symm
  | spin =>
    obtain rfl : s' = s := hact
    refine hquiet ?_ rfl rfl rfl rfl
    cases hp : h trial with
    | _ =>
      rw [hp] at hnext
      exact (Option.some.inj hnext).symm
  | send published =>
    have hs' : s' = { s with channel := Function.update s.channel trial (some published) } := hact
    subst hs'
    refine hquiet ?_ rfl rfl rfl rfl
    cases hp : h trial with
    | _ =>
      rw [hp] at hnext
      exact (Option.some.inj hnext).symm
  | waiter op => exact hact.elim

end TrialInv

abbrev TrialPhases : Option ℕ → Type
  | none => ProbePhase
  | some _ => HelperPhase

/-- The waiter's protocol on its own calls. -/
def waiterProtocol : Protocol TrialOp TrialAns ProbePhase where
  next
    | φ, .waiter op, x => probeProtocol.next φ op x
    | _, _, _ => none

def trialProtocols : (r : Option ℕ) → Protocol TrialOp TrialAns (TrialPhases r)
  | none => waiterProtocol
  | some _ => helperProtocol

def trialPhases : (r : Option ℕ) → TrialPhases r
  | none => ⟨[], [], none⟩
  | some _ => .waiting

def TrialEnded (config : HardwareConfig) : (r : Option ℕ) → TrialResult r → TrialPhases r → Prop
  | none => ProbePhase.Concluded config
  | some _ => fun _ _ => True

theorem waiting_loopFree {α : Type} {p : WaitProg ℕ α} (hp : p.LoopFree) :
    (waiting p).LoopFree := by
  induction p with
  | ret a => trivial
  | call op k ih => exact fun x => ih x (hp x)
  | loop body k => exact hp.elim

theorem preflightTrial_loopFree (config : HardwareConfig) (baselineWait : ℕ) :
    (preflightTrial config baselineWait).LoopFree := by
  have honce : (preflightWaitOnce config preflightTarget).LoopFree := by
    cases config with
    | amd config =>
      exact fun _ => .ite trivial fun _ _ => .ite trivial fun _ _ => .ite trivial fun _ _ => trivial
    | intel config =>
      exact fun _ => .ite trivial fun _ _ => .ite trivial fun _ _ =>
        .ite trivial fun _ _ _ => trivial
  exact fun _ _ => (waiting_loopFree honce).bind fun _ _ _ => trivial

/-- The preflight has no loop but those that are counted. -/
theorem functionalPreflight_loopFree (config : HardwareConfig) :
    (functionalPreflight config).run.LoopFree := by
  have hbaselines : ∀ n, (measureBaselines config n).LoopFree := by
    intro n
    induction n with
    | zero => trivial
    | succ n ih =>
      have hwait := hardwareWait_loopFree baselineTarget 0 none config
      exact fun _ => (waiting_loopFree hwait).bind fun _ _ => ih.bind fun _ => trivial
  have htrials : ∀ b n counts, (storeTrials config b n counts).LoopFree := by
    intro b n
    induction n with
    | zero => exact fun _ => trivial
    | succ n ih =>
      exact fun _ => (preflightTrial_loopFree config b).bind fun _ => .ite trivial (ih _)
  unfold functionalPreflight
  rw [unfailing, lift_bind_run]
  apply (hbaselines _).bind
  intro baselines
  apply Prog.LoopFree.ite
  · trivial
  · change Prog.LoopFree (ExceptT.run (ExceptT.lift _ >>= _))
    rw [lift_bind_run]
    exact (htrials _ _ _).bind fun _ => trivial

/-- The waiter and its helpers obey their protocols. -/
theorem trialPool_follows (config : HardwareConfig) (r : Option ℕ) :
    (trialProtocols r).Follows (trialPool config r) (trialPhases r) (TrialEnded config r) := by
  cases r with
  | none =>
    have hcall : ∀ (φ ψ : ProbePhase) (op : PreflightOp), φ = ψ →
        probeProtocol.Allows (some op) φ →
        waiterProtocol.Follows (Prog.perform (TrialOp.waiter op)) ψ fun x ψ' =>
          ∃ φ', probeProtocol.next φ op x = some φ' ∧ φ' = ψ' := by
      rintro φ _ op rfl hallows
      apply Protocol.follows_call
      intro x
      obtain ⟨φ', hnext⟩ := Option.isSome_iff_exists.mp (hallows op rfl x)
      exact ⟨φ', hnext, Protocol.follows_ret ⟨φ', hnext, rfl⟩⟩
    have hfollows := Protocol.Follows.handle hcall (functionalPreflight_loopFree config)
      (ProbePhase.follows_functionalPreflight config) rfl
    apply Protocol.follows_mono hfollows
    rintro r ψ ⟨φ, hconcluded, rfl⟩
    exact hconcluded
  | some trial => exact follows_preflightHelper

/-- The invariant holds at every point of every run. -/
theorem trial_reach {config : HardwareConfig} {c : Pool (Option ℕ) TrialOp TrialAns TrialResult}
    {s : TrialWorld} (hr : PoolReach trialParties (trialPool config, .initial) (c, s)) :
    ∃ (φ : ProbePhase) (h : ℕ → HelperPhase), TrialInv φ h s ∧
      ∀ r, c none = .ret r → ProbePhase.Concluded config r φ := by
  have hstart : TrialInv (trialPhases none) (fun k => trialPhases (some k)) .initial := by
    constructor
    · rfl
    · exact ⟨⟨rfl, rfl, rfl⟩, fun i record hi => (nomatch hi), fun stage hs => (nomatch hs),
        fun k _ => ⟨rfl, rfl, rfl⟩⟩
    · intro pre e post h
      simp [TrialWorld.initial] at h
    · exact fun k hk => nomatch hk
    · exact fun k hk => absurd rfl hk
    · exact fun k hk => absurd rfl hk
  have hact : ∀ (r : Option ℕ) (φ : (r : Option ℕ) → TrialPhases r) (op : TrialOp)
      (x : TrialAns op) (φ' : TrialPhases r) (s s' : TrialWorld),
      TrialInv (φ none) (fun k => φ (some k)) s →
      (trialProtocols r).next (φ r) op x = some φ' → trialParties.act r op s x s' →
      TrialInv (Function.update φ r φ' none) (fun k => Function.update φ r φ' (some k)) s' := by
    intro r φ op x φ' s s' hinv hnext hact
    cases r with
    | none =>
      cases op with
      | waiter op =>
        simp only [Function.update_self]
        exact hinv.waiter hnext hact
      | _ => exact nomatch hnext
    | some trial =>
      apply hinv.helper hnext hact
      funext k
      by_cases hk : k = trial
      · subst hk
        simp only [Function.update_self]
      · rw [Function.update_of_ne hk, Function.update_of_ne (by simpa using hk)]
  obtain ⟨φ, hinv, hends⟩ := PoolReach.phases
    (J := fun φ s => TrialInv (φ none) (fun k => φ (some k)) s) (trialPool_follows config) hstart
    hact (fun _ _ _ _ henv => henv.elim) hr
  exact ⟨φ none, fun k => φ (some k), hinv, fun r hret => (hends none).2 r hret⟩

open TrialEvent (readings receipts durations median baselineWait started waitFinished observed
  publishedAt elapsed evidence)

/-- The trials that count as verified, in their order. -/
def verifiedTrials (s : TrialWorld) : List ℕ :=
  (List.range' 1 s.trials).filter fun k => (evidence s.log k).verifiedStoreWake

def overlappedTrials (s : TrialWorld) : List ℕ :=
  (List.range' 1 s.trials).filter fun k => (evidence s.log k).helperOverlapped

theorem Recorded.evidence {log : List TrialEvent} {k : ℕ} {record : TrialRecord}
    (h : Recorded log k record) :
    evidence log k = record.evidence (baselineWait log) := by
  obtain ⟨loads, hshows, hlast, _⟩ := h
  simp only [TrialEvent.evidence, TrialRecord.evidence, publishedAt, waitFinished, observed,
    elapsed, started, hshows.readings, hshows.loads, hshows.receipts, hlast]
  rfl

section Verdict

variable {φ : ProbePhase} {h : ℕ → HelperPhase} {s : TrialWorld}

/-- Only a completed trial has evidence. -/
theorem TrialInv.recorded (hinv : TrialInv φ h s) {k : ℕ} (hk : receipts s.log k ≠ []) :
    ∃ i record, k = i + 1 ∧ φ.records[i]? = some record ∧ Recorded s.log k record := by
  have hpos : k ≠ 0 := by
    rintro rfl
    exact hk hinv.kept.baselines.receipts
  have hle : k ≤ φ.trial := by
    by_contra hlt
    exact hk (hinv.kept.future k (not_le.mp hlt)).receipts
  obtain ⟨i, rfl⟩ := Nat.exists_eq_succ_of_ne_zero hpos
  rcases Nat.lt_or_ge i φ.records.length with hlt | hge
  · have hi := List.getElem?_eq_getElem hlt
    exact ⟨i, _, rfl, hi, hinv.kept.records i _ hi⟩
  · -- The trial is still under way.
    exfalso
    cases hφ : φ.stage with
    | none =>
      simp only [ProbePhase.trial, hφ, Option.isSome_none, Bool.false_eq_true, if_false,
        Nat.add_zero] at hle
      omega
    | some stage =>
      have htrial : φ.trial = i + 1 := by
        simp only [ProbePhase.trial, hφ, Option.isSome_some, if_true] at hle ⊢
        omega
      have hstage := hinv.kept.stage stage hφ
      rw [htrial] at hstage
      apply hk
      cases stage with
      | spawned => exact hstage.receipts
      | waiting started observed armed handedOff =>
        obtain ⟨⟨loads, hshows, _⟩, _⟩ := hstage
        exact hshows.receipts
      | finished started observed waitFinished =>
        obtain ⟨loads, hshows, _⟩ := hstage
        exact hshows.receipts

theorem four_mul_lt_of_lt_wakeThreshold {elapsed baseline : ℕ}
    (h : elapsed < wakeThreshold baseline) : 4 * elapsed < 3 * baseline := by
  unfold wakeThreshold at h
  have hmin : min (baseline * 3) durationMax ≤ baseline * 3 := Nat.min_le_left _ _
  omega

/-- The store of a verified trial lies between the handoff and the end of its wait. -/
theorem TrialInv.verified (hinv : TrialInv φ h s) {k : ℕ}
    (hk : (evidence s.log k).verifiedStoreWake = true) :
    (∃ l₁ l₂ l₃ l₄, s.log = l₁ ++ .handedOff k ::
        (l₂ ++ .stored k :: (l₃ ++ .reading k (waitFinished s.log k) :: l₄)) ∧
      .armed k ∈ l₁ ∧ .loaded k (observed s.log k) ∈ l₃) ∧
    observed s.log k ≠ 0 ∧ 4 * elapsed s.log k < 3 * baselineWait s.log := by
  simp only [TrialEvent.evidence, classifyPreflightTrial, Bool.and_eq_true,
    decide_eq_true_eq] at hk
  obtain ⟨⟨hoverlap, hobserved⟩, helapsed⟩ := hk
  have hreceipts : receipts s.log k ≠ [] := by
    intro hnone
    simp [publishedAt, hnone] at hoverlap
  obtain ⟨i, record, _, _, hrecorded⟩ := hinv.recorded hreceipts
  obtain ⟨loads, hshows, hlast, hseen⟩ := hrecorded
  have hvalue : observed s.log k = record.observed := by
    rw [observed, hshows.loads, hlast]
  have hfinished : waitFinished s.log k = record.waitFinished := by
    rw [waitFinished, hshows.readings]
    rfl
  refine ⟨?_, hobserved, four_mul_lt_of_lt_wakeThreshold helapsed⟩
  rw [hvalue] at hobserved ⊢
  rw [hfinished]
  obtain ⟨pre, post, hlog, hmem⟩ := hseen hobserved
  have horderly : Orderly pre := fun a e b hsplit =>
    hinv.orderly a e (b ++ .reading k record.waitFinished :: post) (by rw [hlog, hsplit]; simp)
  obtain ⟨l₁, l₂, l₃, harmed, hloaded, rfl⟩ := horderly.observed hobserved hmem
  exact ⟨l₁, l₂, l₃, post, by rw [hlog]; simp, harmed, hloaded⟩

end Verdict

/-- Counting the members of a list by their positions. -/
theorem length_filter_range {α : Type} (q : α → Bool) (p : ℕ → Bool) (l : List α)
    (h : ∀ i a, l[i]? = some a → p (i + 1) = q a) :
    ((List.range' 1 l.length).filter p).length = l.countP q := by
  induction l using List.reverseRecOn with
  | nil => rfl
  | append_singleton l a ih =>
    have hinit : ∀ i b, l[i]? = some b → p (i + 1) = q b := by
      intro i b hi
      apply h
      have hlt := (List.getElem?_eq_some_iff.mp hi).1
      rwa [List.getElem?_append_left hlt]
    have hlast : p (l.length + 1) = q a := h l.length a (by simp)
    rw [List.length_append, List.length_singleton, List.range'_1_concat, List.filter_append,
      List.length_append, ih hinit, List.countP_append, Nat.add_comm 1, List.countP_singleton,
      ← hlast]
    cases hp : p (l.length + 1) <;> simp [hp]

/-- What the probe returns, in terms of the trials that it has made. -/
structure Verdict (config : HardwareConfig) (s : TrialWorld)
    (r : Except HardwareWaitError PreflightReport) : Prop where
  baselines : (durations (readings s.log 0)).length = preflightBaselineAttempts
  trials : s.trials ≤ preflightStoreAttempts
  didNotBlock : r = .error (.preflightFailed config.backend .waitDidNotBlock) ↔
    baselineWait s.log < preflightMinBlock
  ok : preflightMinBlock ≤ baselineWait s.log → ∀ report, r = .ok report ↔
    ∃ first second, verifiedTrials s = [first, second] ∧
      report = ⟨config.backend, second, 2, baselineWait s.log⟩
  two : preflightMinBlock ≤ baselineWait s.log →
    ((∃ report, r = .ok report) ↔ 2 ≤ (verifiedTrials s).length)
  all : preflightMinBlock ≤ baselineWait s.log → (verifiedTrials s).length < 2 →
    s.trials = preflightStoreAttempts
  inconclusive : preflightMinBlock ≤ baselineWait s.log →
    (r = .error (.preflightFailed config.backend .inconclusive) ↔ overlappedTrials s = [])
  notObserved : preflightMinBlock ≤ baselineWait s.log →
    (r = .error (.preflightFailed config.backend .storeWakeNotObserved) ↔
      overlappedTrials s ≠ [] ∧ (verifiedTrials s).length < 2)

/-- The verdict by the numbers of overlapping and of verified trials. -/
theorem concludePreflight_cases {backend : HardwareBackend} {attempts verified overlaps wait : ℕ}
    (h : verified ≤ overlaps) :
    (overlaps = 0 ∧ verified = 0 ∧ concludePreflight backend attempts verified overlaps wait =
        .error (.preflightFailed backend .inconclusive)) ∨
      (overlaps ≠ 0 ∧ verified < 2 ∧ concludePreflight backend attempts verified overlaps wait =
        .error (.preflightFailed backend .storeWakeNotObserved)) ∨
      (overlaps ≠ 0 ∧ 2 ≤ verified ∧ concludePreflight backend attempts verified overlaps wait =
        .ok ⟨backend, attempts, verified, wait⟩) := by
  unfold concludePreflight preflightRequiredStoreObservations
  by_cases hoverlaps : overlaps = 0
  · exact Or.inl ⟨hoverlaps, by omega, if_pos hoverlaps⟩
  · rw [if_neg hoverlaps]
    by_cases hverified : verified < 2
    · exact Or.inr (Or.inl ⟨hoverlaps, hverified, if_pos hverified⟩)
    · exact Or.inr (Or.inr ⟨hoverlaps, not_lt.mp hverified, if_neg hverified⟩)

section Concluded

variable {φ : ProbePhase} {h : ℕ → HelperPhase} {s : TrialWorld} {config : HardwareConfig}
  {r : Except HardwareWaitError PreflightReport}

/-- With one verified trial before a verified last one, these two are all. -/
theorem TrialInv.verified_last {readings' : List ℕ} {before : List TrialRecord}
    {last : TrialRecord} (hinv : TrialInv ⟨readings', before ++ [last], none⟩ h s)
    (hlast : last.verified (baselineWait s.log) = true)
    (hone : before.countP (TrialRecord.verified (baselineWait s.log)) = 1) :
    ∃ first, verifiedTrials s = [first, (before ++ [last]).length] := by
  have htrials : s.trials = before.length + 1 := by
    rw [hinv.trials, ProbePhase.trial, List.length_append]
    rfl
  have hend : (evidence s.log (before.length + 1)).verifiedStoreWake = true := by
    rw [(hinv.kept.records before.length last (by simp)).evidence]
    exact hlast
  have hbefore : ((List.range' 1 before.length).filter fun k =>
      (evidence s.log k).verifiedStoreWake).length = 1 := by
    refine (length_filter_range (TrialRecord.verified (baselineWait s.log)) _ before ?_).trans hone
    intro i record hi
    have hlt := (List.getElem?_eq_some_iff.mp hi).1
    have hi' : (before ++ [last])[i]? = some record := by
      rwa [List.getElem?_append_left hlt]
    rw [(hinv.kept.records i record hi').evidence]
    rfl
  obtain ⟨first, hfirst⟩ := List.length_eq_one_iff.mp hbefore
  refine ⟨first, ?_⟩
  rw [verifiedTrials, htrials, List.range'_1_concat, List.filter_append, hfirst,
    List.filter_singleton, Nat.add_comm 1, hend, List.length_append]
  rfl

/-- A concluded run has the verdict that its log shows. -/
theorem TrialInv.verdict (hinv : TrialInv φ h s) (hr : ProbePhase.Concluded config r φ) :
    Verdict config s r := by
  obtain ⟨readings', records, rfl, hlength, hcases⟩ := hr
  have hreadings : readings s.log 0 = readings' := hinv.kept.baselines.readings
  have hwait : median (durations readings') = baselineWait s.log := by
    rw [baselineWait, hreadings]
  have htrials : s.trials = records.length := hinv.trials
  rw [hwait] at hcases
  have hverified : (verifiedTrials s).length =
      records.countP (TrialRecord.verified (baselineWait s.log)) := by
    unfold verifiedTrials
    rw [htrials]
    apply length_filter_range
    intro i record hi
    rw [(hinv.kept.records i record hi).evidence]
    rfl
  have hoverlapped : (overlappedTrials s).length =
      records.countP (TrialRecord.overlapped (baselineWait s.log)) := by
    unfold overlappedTrials
    rw [htrials]
    apply length_filter_range
    intro i record hi
    rw [(hinv.kept.records i record hi).evidence]
    rfl
  have hnil : overlappedTrials s = [] ↔
      records.countP (TrialRecord.overlapped (baselineWait s.log)) = 0 := by
    rw [← hoverlapped, List.length_eq_zero_iff]
  have hle : records.countP (TrialRecord.verified (baselineWait s.log)) ≤
      records.countP (TrialRecord.overlapped (baselineWait s.log)) := by
    apply List.countP_mono_left
    intro record _ hv
    simp only [TrialRecord.verified, TrialRecord.evidence, classifyPreflightTrial,
      Bool.and_eq_true] at hv
    exact hv.1.1
  rcases hcases with ⟨hmin, rfl, rfl⟩ | ⟨hmin, hstopped, rfl⟩
  · have hnot : ¬ preflightMinBlock ≤ baselineWait s.log := not_le.mpr hmin
    refine ⟨by rw [hreadings, hlength], by rw [htrials]; exact Nat.zero_le _, ?_,
      fun hw => absurd hw hnot, fun hw => absurd hw hnot, fun hw => absurd hw hnot,
      fun hw => absurd hw hnot, fun hw => absurd hw hnot⟩
    exact iff_of_true rfl hmin
  · have hblocked : ¬ baselineWait s.log < preflightMinBlock := not_lt.mpr hmin
    have hall : s.trials ≤ preflightStoreAttempts := by
      rw [htrials]
      exact hstopped.1
    rcases hstopped.2 with ⟨before, last, rfl, hlast, hone⟩ | ⟨hsixteen, hfew⟩
    · have htwo : (before ++ [last]).countP (TrialRecord.verified (baselineWait s.log)) = 2 := by
        rw [List.countP_append, hone, List.countP_singleton, if_pos hlast]
      have hlist : ∃ first, verifiedTrials s = [first, (before ++ [last]).length] :=
        hinv.verified_last hlast hone
      obtain ⟨first, hlist⟩ := hlist
      have hlen : (verifiedTrials s).length = 2 := by rw [hverified, htwo]
      rcases concludePreflight_cases hle with ⟨_, hzero, _⟩ | ⟨_, hfew, _⟩ | ⟨hne, _, hresult⟩
      · omega
      · omega
      · rw [hresult, htwo]
        refine ⟨by rw [hreadings, hlength], hall, iff_of_false (fun hr => nomatch hr) hblocked,
          fun _ report => ?_, fun _ => iff_of_true ⟨_, rfl⟩ (Nat.le_of_eq hlen.symm),
          fun _ hlt => by omega, fun _ => iff_of_false (fun hr => nomatch hr) ?_,
          fun _ => iff_of_false (fun hr => nomatch hr) ?_⟩
        · rw [hlist]
          constructor
          · rintro ⟨⟩
            exact ⟨first, _, rfl, rfl⟩
          · rintro ⟨first', second, heq, rfl⟩
            obtain ⟨_, heq⟩ := List.cons.inj heq
            obtain ⟨rfl, _⟩ := List.cons.inj heq
            rfl
        · rw [hnil]
          exact hne
        · rintro ⟨_, hlt⟩
          omega
    · have hfew' : (verifiedTrials s).length < 2 := by rwa [hverified]
      have hno : ∀ report, (∃ first second, verifiedTrials s = [first, second] ∧
          report = (⟨config.backend, second, 2, baselineWait s.log⟩ : PreflightReport)) → False := by
        rintro report ⟨first, second, hlist, _⟩
        rw [hlist] at hfew'
        exact absurd hfew' (Nat.lt_irrefl 2)
      rcases concludePreflight_cases hle with ⟨hzero, _, hresult⟩ | ⟨hne, _, hresult⟩ | ⟨_, htwo, _⟩
      · rw [hresult]
        refine ⟨by rw [hreadings, hlength], hall, iff_of_false (fun hr => nomatch hr) hblocked,
          fun _ report => iff_of_false (fun hr => nomatch hr) (hno report),
          fun _ => iff_of_false (fun ⟨_, hr⟩ => nomatch hr) (not_le.mpr hfew'),
          fun _ _ => htrials.trans hsixteen, fun _ => iff_of_true rfl (hnil.mpr hzero),
          fun _ => iff_of_false (fun hr => nomatch hr) ?_⟩
        exact fun hboth => hboth.1 (hnil.mpr hzero)
      · rw [hresult]
        have hnonempty : overlappedTrials s ≠ [] := fun hempty => hne (hnil.mp hempty)
        exact ⟨by rw [hreadings, hlength], hall, iff_of_false (fun hr => nomatch hr) hblocked,
          fun _ report => iff_of_false (fun hr => nomatch hr) (hno report),
          fun _ => iff_of_false (fun ⟨_, hr⟩ => nomatch hr) (not_le.mpr hfew'),
          fun _ _ => htrials.trans hsixteen,
          fun _ => iff_of_false (fun hr => nomatch hr) hnonempty,
          fun _ => iff_of_true rfl ⟨hnonempty, hfew'⟩⟩
      · omega

end Concluded

/-- In every interleaving of the probe with its helpers: a target is stored to behind the arm and
the handoff of its trial only; a verified trial proves a store between its handoff and the end of
its wait, seen by the waiter and faster than the baseline; and the verdict is the one that the
trials made by then determine. -/
theorem preflight_verdict (config : HardwareConfig)
    {c : Pool (Option ℕ) TrialOp TrialAns TrialResult} {s : TrialWorld}
    (hr : PoolReach trialParties (trialPool config, .initial) (c, s)) :
    (∀ k, s.target k ≠ 0 → ∃ l₁ l₂, s.log = l₁ ++ .handedOff k :: l₂ ∧ .armed k ∈ l₁) ∧
    (∀ k v pre post, s.log = pre ++ .loaded k v :: post → v ≠ 0 →
      .armed k ∈ pre ∧ .handedOff k ∈ pre) ∧
    (∀ k, (evidence s.log k).verifiedStoreWake = true →
      (∃ l₁ l₂ l₃ l₄, s.log = l₁ ++ .handedOff k ::
          (l₂ ++ .stored k :: (l₃ ++ .reading k (waitFinished s.log k) :: l₄)) ∧
        .armed k ∈ l₁ ∧ .loaded k (observed s.log k) ∈ l₃) ∧
      observed s.log k ≠ 0 ∧ 4 * elapsed s.log k < 3 * baselineWait s.log) ∧
    ∀ r, c none = .ret r → Verdict config s r := by
  obtain ⟨φ, h, hinv, hends⟩ := trial_reach hr
  refine ⟨?_, ?_, fun k hk => hinv.verified hk, fun r hret => hinv.verdict (hends r hret)⟩
  · intro k hk
    obtain ⟨pre, post, hlog⟩ := List.append_of_mem (hinv.target k hk)
    have hhanded : .handedOff k ∈ pre := hinv.orderly pre (.stored k) post hlog
    obtain ⟨l₁, l₂, rfl⟩ := List.append_of_mem hhanded
    refine ⟨l₁, l₂ ++ .stored k :: post, by rw [hlog]; simp, ?_⟩
    exact hinv.orderly l₁ (.handedOff k) (l₂ ++ .stored k :: post) (by rw [hlog]; simp)
  · intro k v pre post hlog hv
    have hstored : .stored k ∈ pre := hinv.orderly pre (.loaded k v) post hlog hv
    obtain ⟨pre, b, rfl⟩ := List.append_of_mem hstored
    have hhanded : .handedOff k ∈ pre :=
      hinv.orderly pre (.stored k) (b ++ .loaded k v :: post) (by rw [hlog]; simp)
    obtain ⟨l₁, l₂, rfl⟩ := List.append_of_mem hhanded
    have harmed : .armed k ∈ l₁ := hinv.orderly l₁ (.handedOff k)
      (l₂ ++ .stored k :: b ++ .loaded k v :: post) (by rw [hlog]; simp)
    exact ⟨by simp [harmed], by simp⟩

/-- A baseline wait lasts a millisecond and every reading of a helper is ten microseconds after
the one before; the waits of the trials return with the store. -/
def servePreflight : Option ℕ → Server TrialOp TrialAns TrialWorld
  | none, .waiter .instantNow, s =>
    let x := if s.trials = 0 then s.clock + 1000000 else s.clock
    some (x, { s.record (.reading s.trials x) with clock := x })
  | none, .waiter (.wait (.load address _)), s =>
    let v := s.read address
    some (v, if address = preflightTarget.address then s.record (.loaded s.trials v) else s)
  | none, .waiter (.wait (.monitorx address)), s =>
    some ((), if address = preflightTarget.address then s.record (.armed s.trials) else s)
  | none, .waiter (.wait .storeHandoff), s =>
    some ((), { s.record (.handedOff s.trials) with
      handoff := Function.update s.handoff s.trials true })
  | none, .waiter (.wait (.mwaitx _ _)), s =>
    if 0 < s.trials ∧ s.target s.trials = 0 then none else some ((), s)
  | none, .waiter (.startTrial producerDelay), s =>
    some ((), { s with
      trials := s.trials + 1
      delay := Function.update s.delay (s.trials + 1) producerDelay })
  | none, .waiter .receive, s =>
    let x := (s.channel s.trials).join
    some (x, s.record (.received s.trials x))
  | some trial, .begin, s => if 0 < trial ∧ trial ≤ s.trials then some (s.delay trial, s) else none
  | some trial, .loadHandoff, s => some (s.handoff trial, s)
  | some _, .now, s => some (s.clock + 10000, { s with clock := s.clock + 10000 })
  | some _, .spin, s => some ((), s)
  | some trial, .storeTarget, s =>
    some ((), { s.record (.stored trial) with target := Function.update s.target trial 1 })
  | some trial, .send published, s =>
    some ((), { s with channel := Function.update s.channel trial (some published) })
  | _, _, _ => none

/-- A served call is one that the parties of the trials allow. -/
theorem servePreflight_act {r : Option ℕ} {op : TrialOp} {s s' : TrialWorld} {x : TrialAns op}
    (h : servePreflight r op s = some (x, s')) : trialParties.act r op s x s' := by
  cases r with
  | none =>
    cases op with
    | waiter op =>
      cases op with
      | instantNow =>
        cases h
        refine ⟨?_, rfl⟩
        split
        · exact Nat.le_add_right _ _
        · exact Nat.le_refl _
      | startTrial producerDelay =>
        cases h
        rfl
      | receive =>
        cases h
        exact ⟨rfl, rfl⟩
      | wait op =>
        cases op with
        | load address ordering =>
          cases h
          exact ⟨rfl, rfl⟩
        | monitorx address =>
          cases h
          rfl
        | storeHandoff =>
          cases h
          rfl
        | mwaitx timeoutCycles hint =>
          simp only [servePreflight] at h
          split at h
          · cases h
          · cases h
            rfl
        | _ => cases h
      | _ => cases h
    | _ => cases h
  | some trial =>
    cases op with
    | begin =>
      simp only [servePreflight] at h
      split at h
      · next htrial =>
        cases h
        exact ⟨htrial.1, htrial.2, rfl, rfl⟩
      · cases h
    | now =>
      cases h
      exact ⟨Nat.le_add_right _ _, rfl⟩
    | loadHandoff =>
      cases h
      exact ⟨rfl, rfl⟩
    | spin =>
      cases h
      rfl
    | storeTarget =>
      cases h
      rfl
    | send published =>
      cases h
      rfl
    | waiter op => cases h

def sampleProbe : Pool (Option ℕ) TrialOp TrialAns TrialResult × TrialWorld :=
  Pool.play servePreflight
    [(none, 100), (some 1, 100), (none, 100), (some 2, 100), (none, 100)]
    (trialPool (.amd (AmdConfig.new 400)), .initial)

theorem sampleProbe_reach : PoolReach trialParties (trialPool (.amd (AmdConfig.new 400)), .initial)
    (sampleProbe.1, sampleProbe.2) := by
  rw [Prod.mk.eta]
  exact (Pool.play_reach (I := fun _ => True) (fun _ _ _ _ _ _ h => ⟨servePreflight_act h, trivial⟩)
    _ _ _ trivial).1

set_option maxRecDepth 4000 in
/-- Two trials of the sample are verified, the first of them between these events. -/
theorem preflight_verdict_sample :
    verifiedTrials sampleProbe.2 = [1, 2] ∧
      Verdict (.amd (AmdConfig.new 400)) sampleProbe.2 (.ok ⟨.amdMwaitx, 2, 2, 1000000⟩) ∧
      ∃ l₁ l₂ l₃ l₄, sampleProbe.2.log = l₁ ++ .handedOff 1 ::
        (l₂ ++ .stored 1 :: (l₃ ++ .reading 1 10050000 :: l₄)) := by
  have hended : (sampleProbe.1 none).ended = some (.ok ⟨.amdMwaitx, 2, 2, 1000000⟩) := by
    decide +kernel
  have hverified : verifiedTrials sampleProbe.2 = [1, 2] := by decide +kernel
  have hfirst : (evidence sampleProbe.2.log 1).verifiedStoreWake = true := by decide +kernel
  have hfinished : waitFinished sampleProbe.2.log 1 = 10050000 := by decide +kernel
  obtain ⟨_, _, hproved, hverdict⟩ := preflight_verdict (.amd (AmdConfig.new 400))
    sampleProbe_reach
  obtain ⟨⟨l₁, l₂, l₃, l₄, hlog, _⟩, _⟩ := hproved 1 hfirst
  rw [hfinished] at hlog
  exact ⟨hverified, hverdict _ (Prog.ended_eq_some hended), l₁, l₂, l₃, l₄, hlog⟩

end Snoozer
