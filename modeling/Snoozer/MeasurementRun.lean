import Snoozer.AnsweredRuns
import Snoozer.BenchmarkArguments
import Snoozer.BenchmarkMatrix
import Snoozer.LatencyEvents
import Mathlib.Algebra.GroupWithZero.Nat
import Mathlib.Data.List.MinMax
import Mathlib.Data.Prod.Lex

/-! The measurements of a benchmark run, the second half of `main` of `benches/wake_latency.rs`: the
victim alone and with a contender, repetition by repetition, and what is written of them. -/
namespace Snoozer.WakeLatency
open Interactive Interactive.Fallible Results

/-- What the summaries use besides of `f64`: `total_cmp`. -/
structure SummaryF64 (F : Type) extends F64 F where
  totalLe : F → F → Bool

structure Summary (F : Type) where
  case : Case
  workload : Workload
  repetitions : ℕ
  p50Cycles : ℕ
  p99Cycles : ℕ
  p999Cycles : ℕ
  p50Ns : ℕ
  p99Ns : ℕ
  p999Ns : ℕ
  throughputLossPercent : F
  victimP99DegradationPercent : F
  invalidSamples : ℕ
  migratedSamples : ℕ
  sampleLimitReached : Bool
  eligible : Bool

def medianU64 (values : List ℕ) : ℕ := values.mergeSort.getD (values.length / 2) 0

/-- `Sum` on `u64`, where overflow is not checked. -/
def wrappingSum (values : List ℕ) : ℕ := values.sum % 2 ^ 64

section Program

variable {F : Type} (f64 : SummaryF64 F)

def medianF64 (values : List F) : F :=
  (values.mergeSort f64.totalLe).getD (values.length / 2) (f64.literal 0)

def maxThroughputLossPercent : F := f64.literal 5

def maxP99DegradationPercent : F := f64.literal 10

/-- The summary of repetitions of which there is at least one. -/
def Summary.ofRepetitions (case : Case) (workload : Workload)
    (repetitions : List (RepetitionResult F)) : Summary F :=
  let throughputLossPercent := medianF64 f64 (repetitions.map (·.throughputLossPercent))
  let victimP99DegradationPercent :=
    medianF64 f64 (repetitions.map (·.victimP99DegradationPercent))
  let invalidSamples := wrappingSum (repetitions.map (·.invalidSamples))
  let migratedSamples := wrappingSum (repetitions.map (·.migratedSamples))
  let sampleLimitReached := repetitions.any (·.sampleLimitReached)
  { case
    workload
    repetitions := repetitions.length
    p50Cycles := medianU64 (repetitions.map (·.p50Cycles))
    p99Cycles := medianU64 (repetitions.map (·.p99Cycles))
    p999Cycles := medianU64 (repetitions.map (·.p999Cycles))
    p50Ns := medianU64 (repetitions.map (·.p50Ns))
    p99Ns := medianU64 (repetitions.map (·.p99Ns))
    p999Ns := medianU64 (repetitions.map (·.p999Ns))
    throughputLossPercent
    victimP99DegradationPercent
    invalidSamples
    migratedSamples
    sampleLimitReached
    eligible := f64.le throughputLossPercent (maxThroughputLossPercent f64) &&
      f64.le victimP99DegradationPercent (maxP99DegradationPercent f64) &&
      invalidSamples = 0 && migratedSamples = 0 && !sampleLimitReached }

def Summary.fromRepetitions (case : Case) (workload : Workload)
    (repetitions : List (RepetitionResult F)) : Except String (Summary F) :=
  if repetitions.isEmpty then .error "cannot summarize an empty repetition set"
  else .ok (.ofRepetitions f64 case workload repetitions)

/-- `latency_rank_key`, in the order of tuples. -/
def Summary.rankKey (summary : Summary F) : ℕ ×ₗ ℕ ×ₗ ℕ :=
  toLex (summary.p99Cycles, toLex (summary.p999Cycles, summary.p50Cycles))

/-- `min_by_key`, which of equal ones takes the first. -/
def chooseWinner (summaries : List (Summary F)) : Option (Summary F) :=
  (summaries.filter (·.eligible)).argmin Summary.rankKey

inductive RunCaseError where
  | unsupported (reason : String)
  | sampleCapExhausted (error : SampleSetError)
  | failed (error : String)
  deriving DecidableEq, Repr

def SampleSetError.display : SampleSetError → String
  | sampleCapExhausted maxSamples =>
    s!"latency sample cap of {maxSamples} reached; partial distributions are not emitted; " ++
      "rerun with a larger --max-samples"
  | empty => "timed trial produced no post-warmup latency samples"

/-- The records of the output; of the metadata nothing is said. -/
inductive Record (F : Type) where
  | metadata
  | repetition (case : Case) (workload : Workload) (result : RepetitionResult F)
  | skipped (case : Case) (workload : Workload) (reason : String)
  | summary (summary : Summary F)
  | winner (summary : Summary F)
  | noWinner (workload : Workload)

inductive MeasureOp (F : Type) where
  | runVictimControl
  | runCase (case : Case) (workload : Workload)
  | write (record : Record F)
  | finish

abbrev MeasureAns : MeasureOp F → Type
  | .runVictimControl => Except String VictimMetrics
  | .runCase _ _ => Except RunCaseError ContenderTrial
  | .write _ => Except String Unit
  | .finish => Except String Unit

abbrev MeasureEvent (F : Type) := Event (MeasureOp F) MeasureAns

abbrev Measure (F : Type) := Fallible (MeasureOp F) MeasureAns String

def write (record : Record F) : Measure F Unit := do fromExcept (← ask (.write record))

def runVictimControl : Measure F VictimMetrics := do fromExcept (← ask .runVictimControl)

/-- The trial of the contender, or the reason why its case is not supported. -/
def runContender (case : Case) (workload : Workload) :
    Measure F (Except String ContenderTrial) := do
  let answer : Except RunCaseError ContenderTrial ← ask (MeasureOp.runCase case workload)
  match answer with
  | .ok contender => return .ok contender
  | .error (.unsupported reason) => return .error reason
  | .error (.sampleCapExhausted error) => throw error.display
  | .error (.failed error) => throw error

structure Pair where
  control : VictimMetrics
  contender : ContenderTrial
  deriving DecidableEq, Repr

def runPair (case : Case) (workload : Workload) (controlFirst : Bool) :
    Measure F (Except String Pair) := do
  if controlFirst then
    let control ← runVictimControl
    match ← runContender case workload with
    | .ok contender => return .ok ⟨control, contender⟩
    | .error reason => return .error reason
  else
    match ← runContender case workload with
    | .ok contender =>
      let control ← runVictimControl
      return .ok ⟨control, contender⟩
    | .error reason => return .error reason

/-- `control_first`. -/
def controlFirst (caseIndex repetition : ℕ) : Bool := (caseIndex + repetition) % 2 == 0

/-- The repetitions of a case, as they are kept for its summary. -/
structure CaseRun (F : Type) where
  repetitions : List (RepetitionResult F)
  unsupported : Option String

/-- `raw_latency_cycles.clear()`. -/
def RepetitionResult.cleared (result : RepetitionResult F) : RepetitionResult F :=
  { result with rawLatencyCycles := [] }

section Run

variable (arguments : Arguments) (clock : TscClock F) (correctionCycles : ℤ)

/-- The loop over the repetitions, of which `remaining` are still to come. -/
def runRepetitions (case : Case) (workload : Workload) (caseIndex : ℕ) :
    ℕ → ℕ → List (RepetitionResult F) → Measure F (CaseRun F)
  | 0, _, repetitions => return ⟨repetitions, none⟩
  | remaining + 1, repetition, repetitions => do
    match ← runPair case workload (controlFirst caseIndex repetition) with
    | .error reason =>
      if arguments.mode = .official then
        throw ("official mode requires every benchmark case; " ++ case.name ++
          " is unsupported: " ++ reason)
      else
        return ⟨repetitions, some reason⟩
    | .ok pair =>
      let result ← fromExcept (RepetitionResult.new f64.toF64 repetition
        (controlFirst caseIndex repetition) pair.control pair.contender clock correctionCycles)
      write (.repetition case workload result)
      runRepetitions case workload caseIndex remaining (repetition + 1)
        (repetitions ++ [result.cleared])

/-- The loop over the cases; the summaries of those that were measured. -/
def runCases (workload : Workload) :
    List Case → ℕ → List (Summary F) → Measure F (List (Summary F))
  | [], _, summaries => return summaries
  | case :: cases, caseIndex, summaries => do
    let run ← runRepetitions f64 arguments clock correctionCycles case workload caseIndex
      arguments.repetitions 0 []
    match run.unsupported with
    | some reason =>
      write (.skipped case workload reason)
      runCases workload cases (caseIndex + 1) summaries
    | none =>
      let summary ← fromExcept (Summary.fromRepetitions f64 case workload run.repetitions)
      write (.summary summary)
      runCases workload cases (caseIndex + 1) (summaries ++ [summary])

def runWorkload (cases : List Case) (workload : Workload) : Measure F Unit := do
  let summaries ← runCases f64 arguments clock correctionCycles workload cases 0 []
  match chooseWinner summaries with
  | some winner => write (.winner winner)
  | none => write (.noWinner workload)

/-- What is written before the output is finished. -/
def writeReport (preflight : HardwarePreflight) : Measure F Unit := do
  write .metadata
  if arguments.preflightOnly then
    return ()
  else
    let cases ← fromExcept (allCases arguments.caseFilter preflight.matrix)
    runWorkload f64 arguments clock correctionCycles cases .saturated
    runWorkload f64 arguments clock correctionCycles cases .bursty

/-- From `output.metadata` on. -/
def measure (preflight : HardwarePreflight) : Measure F Unit := do
  writeReport f64 arguments clock correctionCycles preflight
  fromExcept (← ask .finish)

end Run

end Program

-- What a run that comes to its end has measured and written, without the loops.
section Report

variable {F : Type} (f64 : SummaryF64 F) (arguments : Arguments) (clock : TscClock F)
  (correctionCycles : ℤ)

/-- A repetition with the trials that it was computed from. -/
structure Taken (F : Type) where
  control : VictimMetrics
  contender : ContenderTrial
  result : RepetitionResult F

/-- The two trials stand in the order that `control_first` says, and then the record. -/
def Taken.events (case : Case) (workload : Workload) (caseIndex repetition : ℕ) (taken : Taken F) :
    List (MeasureEvent F) :=
  (if controlFirst caseIndex repetition then
    [⟨.runVictimControl, .ok taken.control⟩, ⟨.runCase case workload, .ok taken.contender⟩]
  else
    [⟨.runCase case workload, .ok taken.contender⟩, ⟨.runVictimControl, .ok taken.control⟩]) ++
  [⟨.write (.repetition case workload taken.result), .ok ()⟩]

def Taken.Valid (caseIndex repetition : ℕ) (taken : Taken F) : Prop :=
  RepetitionResult.new f64.toF64 repetition (controlFirst caseIndex repetition) taken.control
    taken.contender clock correctionCycles = .ok taken.result

/-- The events of repetitions that are numbered from `first` on. -/
def takenEvents (case : Case) (workload : Workload) (caseIndex : ℕ) :
    ℕ → List (Taken F) → List (MeasureEvent F)
  | _, [] => []
  | first, taken :: rest =>
    taken.events case workload caseIndex first ++
      takenEvents case workload caseIndex (first + 1) rest

def TakenValid (caseIndex : ℕ) : ℕ → List (Taken F) → Prop
  | _, [] => True
  | first, taken :: rest =>
    taken.Valid f64 clock correctionCycles caseIndex first ∧ TakenValid caseIndex (first + 1) rest

/-- What came of a case: all its repetitions, or some and then a reason why it is not supported; the
control of that last pair counts only where it was taken first. -/
inductive Measured (F : Type) where
  | complete (taken : List (Taken F))
  | refused (taken : List (Taken F)) (control : VictimMetrics) (reason : String)

def Measured.taken : Measured F → List (Taken F)
  | complete taken => taken
  | refused taken _ _ => taken

def Measured.summary? (case : Case) (workload : Workload) : Measured F → Option (Summary F)
  | complete taken => some (.ofRepetitions f64 case workload (taken.map (·.result.cleared)))
  | refused _ _ _ => none

/-- What stands behind the repetitions. -/
def Measured.closing (case : Case) (workload : Workload) (caseIndex : ℕ) :
    Measured F → List (MeasureEvent F)
  | complete taken =>
    [⟨.write (.summary (.ofRepetitions f64 case workload (taken.map (·.result.cleared)))), .ok ()⟩]
  | refused taken control reason =>
    (if controlFirst caseIndex taken.length then [⟨.runVictimControl, .ok control⟩] else []) ++
    [⟨.runCase case workload, .error (.unsupported reason)⟩,
      ⟨.write (.skipped case workload reason), .ok ()⟩]

def Measured.events (case : Case) (workload : Workload) (caseIndex : ℕ) (measured : Measured F) :
    List (MeasureEvent F) :=
  takenEvents case workload caseIndex 0 measured.taken ++
    measured.closing f64 case workload caseIndex

/-- A case may be refused only in smoke mode. -/
structure Measured.Valid (caseIndex : ℕ) (measured : Measured F) : Prop where
  taken : TakenValid f64 clock correctionCycles caseIndex 0 measured.taken
  complete : ∀ taken, measured = .complete taken →
    taken.length = arguments.repetitions ∧ taken ≠ []
  refused : ∀ taken control reason, measured = .refused taken control reason →
    taken.length < arguments.repetitions ∧ arguments.mode = .smoke

/-- Every case is measured, in the order of the cases. -/
inductive CasesMeasured (workload : Workload) :
    ℕ → List Case → List (Summary F) → List (MeasureEvent F) → Prop
  | nil (caseIndex : ℕ) : CasesMeasured workload caseIndex [] [] []
  | cons {caseIndex : ℕ} {case : Case} {cases : List Case} {summaries : List (Summary F)}
      {events : List (MeasureEvent F)} (measured : Measured F)
      (valid : measured.Valid f64 arguments clock correctionCycles caseIndex)
      (rest : CasesMeasured workload (caseIndex + 1) cases summaries events) :
      CasesMeasured workload caseIndex (case :: cases)
        ((measured.summary? f64 case workload).toList ++ summaries)
        (measured.events f64 case workload caseIndex ++ events)

/-- The first of the eligible summaries that have the least rank. -/
def IsWinner (summaries : List (Summary F)) (winner : Summary F) : Prop :=
  ∃ before after, summaries = before ++ winner :: after ∧ winner.eligible = true ∧
    (∀ summary ∈ before, summary.eligible = true → winner.rankKey < summary.rankKey) ∧
    ∀ summary ∈ after, summary.eligible = true → winner.rankKey ≤ summary.rankKey

/-- The last record of a workload. -/
def Verdict (workload : Workload) (summaries : List (Summary F)) (e : MeasureEvent F) : Prop :=
  (∃ winner, IsWinner summaries winner ∧ e = ⟨.write (.winner winner), .ok ()⟩) ∨
    (∀ summary ∈ summaries, summary.eligible = false) ∧ e = ⟨.write (.noWinner workload), .ok ()⟩

def WorkloadMeasured (cases : List Case) (workload : Workload) (t : List (MeasureEvent F)) : Prop :=
  ∃ summaries events e, CasesMeasured f64 arguments clock correctionCycles workload 0 cases summaries
    events ∧ Verdict workload summaries e ∧ t = events ++ [e]

/-- Both workloads over all cases; with `--preflight-only`, the metadata alone. -/
def Reported (preflight : HardwarePreflight) (t : List (MeasureEvent F)) : Prop :=
  (arguments.preflightOnly = true ∧ t = [⟨.write .metadata, .ok ()⟩]) ∨
    arguments.preflightOnly = false ∧
    ∃ cases saturated bursty, allCases arguments.caseFilter preflight.matrix = .ok cases ∧
      WorkloadMeasured f64 arguments clock correctionCycles cases .saturated saturated ∧
      WorkloadMeasured f64 arguments clock correctionCycles cases .bursty bursty ∧
      t = ⟨.write .metadata, .ok ()⟩ :: saturated ++ bursty

end Report

section Answers

variable {F : Type} {f64 : SummaryF64 F} {arguments : Arguments} {clock : TscClock F}
  {correctionCycles : ℤ} {case : Case} {workload : Workload} {t : List (MeasureEvent F)}

theorem answers_write {record : Record F} {u : Unit} :
    Answers (write record) t (.ok u) ↔ t = [⟨.write record, .ok ()⟩] := by
  unfold write
  rw [answers_ask_bind]
  constructor
  · rintro ⟨x, rest, h, rfl⟩
    obtain ⟨rfl, rfl⟩ := answers_fromExcept.mp h
    rfl
  · rintro rfl
    exact ⟨.ok (), [], answers_fromExcept.mpr ⟨rfl, rfl⟩, rfl⟩

theorem answers_write_bind {α : Type} {record : Record F} {f : Unit → Measure F α} {a : α} :
    Answers (write record >>= f) t (.ok a) ↔
      ∃ rest, Answers (f ()) rest (.ok a) ∧ t = ⟨.write record, .ok ()⟩ :: rest := by
  rw [answers_bind]
  constructor
  · rintro ⟨first, rest, u, hwrite, h, rfl⟩
    obtain rfl := answers_write.mp hwrite
    exact ⟨rest, h, rfl⟩
  · rintro ⟨rest, h, rfl⟩
    exact ⟨_, rest, (), answers_write.mpr rfl, h, rfl⟩

theorem answers_runVictimControl {control : VictimMetrics} :
    Answers (runVictimControl (F := F)) t (.ok control) ↔ t = [⟨.runVictimControl, .ok control⟩] := by
  unfold runVictimControl
  rw [answers_ask_bind]
  constructor
  · rintro ⟨x, rest, h, rfl⟩
    obtain ⟨rfl, rfl⟩ := answers_fromExcept.mp h
    rfl
  · rintro rfl
    exact ⟨.ok control, [], answers_fromExcept.mpr ⟨rfl, rfl⟩, rfl⟩

/-- A contender is one call, whose refusal is a reason. -/
theorem answers_runContender {result : Except String ContenderTrial} :
    Answers (runContender case workload) t (.ok result) ↔
      t = [⟨.runCase case workload, result.mapError .unsupported⟩] := by
  unfold runContender
  rw [answers_ask_bind]
  constructor
  · rintro ⟨x, rest, h, rfl⟩
    -- of the errors, only an unsupported case is not thrown
    rcases x with (reason | error | error) | contender
    · obtain ⟨rfl, rfl⟩ := answers_pure.mp h
      rfl
    · exact absurd h answers_throw
    · exact absurd h answers_throw
    · obtain ⟨rfl, rfl⟩ := answers_pure.mp h
      rfl
  · rintro rfl
    cases result with
    | error reason => exact ⟨.error (.unsupported reason), [], answers_pure.mpr ⟨rfl, rfl⟩, rfl⟩
    | ok contender => exact ⟨.ok contender, [], answers_pure.mpr ⟨rfl, rfl⟩, rfl⟩

/-- The events of a pair whose contender is not supported. -/
def refusedEvents (case : Case) (workload : Workload) (first : Bool) (control : VictimMetrics)
    (reason : String) : List (MeasureEvent F) :=
  (if first then [⟨.runVictimControl, .ok control⟩] else []) ++
    [⟨.runCase case workload, .error (.unsupported reason)⟩]

/-- A measured pair ran both sides, in the order it was asked for. -/
theorem answers_runPair_ok {first : Bool} {pair : Pair}
    (h : Answers (runPair case workload first) t (.ok (.ok pair))) :
    t = if first then
      [⟨.runVictimControl, .ok pair.control⟩, ⟨.runCase case workload, .ok pair.contender⟩]
    else
      [⟨.runCase case workload, .ok pair.contender⟩, ⟨.runVictimControl, .ok pair.control⟩] := by
  unfold runPair at h
  cases first with
  | true =>
    rw [if_pos rfl] at h ⊢
    obtain ⟨_, rest, control, hcontrol, h₁, rfl⟩ := answers_bind.mp h
    obtain rfl := answers_runVictimControl.mp hcontrol
    obtain ⟨_, last, result, hcontender, h₂, rfl⟩ := answers_bind.mp h₁
    obtain rfl := answers_runContender.mp hcontender
    cases result with
    | error reason => cases (answers_pure.mp h₂).2
    | ok contender =>
      obtain ⟨rfl, hpair⟩ := answers_pure.mp h₂
      obtain rfl := Except.ok.inj hpair
      rfl
  | false =>
    rw [if_neg Bool.false_ne_true] at h ⊢
    obtain ⟨_, last, result, hcontender, h₁, rfl⟩ := answers_bind.mp h
    obtain rfl := answers_runContender.mp hcontender
    cases result with
    | error reason => cases (answers_pure.mp h₁).2
    | ok contender =>
      obtain ⟨_, rest, control, hcontrol, h₂, rfl⟩ := answers_bind.mp h₁
      obtain rfl := answers_runVictimControl.mp hcontrol
      obtain ⟨rfl, hpair⟩ := answers_pure.mp h₂
      obtain rfl := Except.ok.inj hpair
      rfl

/-- A refused pair ran up to its contender. -/
theorem answers_runPair_error {first : Bool} {reason : String}
    (h : Answers (runPair case workload first) t (.ok (.error reason))) :
    ∃ control, t = refusedEvents case workload first control reason := by
  unfold runPair at h
  cases first with
  | true =>
    rw [if_pos rfl] at h
    obtain ⟨_, rest, control, hcontrol, h₁, rfl⟩ := answers_bind.mp h
    obtain rfl := answers_runVictimControl.mp hcontrol
    obtain ⟨_, last, result, hcontender, h₂, rfl⟩ := answers_bind.mp h₁
    obtain rfl := answers_runContender.mp hcontender
    cases result with
    | error reason' =>
      obtain ⟨rfl, hreason⟩ := answers_pure.mp h₂
      obtain rfl := Except.error.inj hreason
      exact ⟨control, rfl⟩
    | ok contender => cases (answers_pure.mp h₂).2
  | false =>
    rw [if_neg Bool.false_ne_true] at h
    obtain ⟨_, last, result, hcontender, h₁, rfl⟩ := answers_bind.mp h
    obtain rfl := answers_runContender.mp hcontender
    cases result with
    | error reason' =>
      obtain ⟨rfl, hreason⟩ := answers_pure.mp h₁
      obtain rfl := Except.error.inj hreason
      -- no control was taken, so any one will do
      exact ⟨⟨0, 0, 0⟩, rfl⟩
    | ok contender =>
      obtain ⟨_, rest, control, -, h₂, -⟩ := answers_bind.mp h₁
      cases (answers_pure.mp h₂).2

/-- Some repetitions are taken, either all that remained or all before a refusal. -/
theorem answers_runRepetitions {caseIndex remaining repetition : ℕ}
    {repetitions : List (RepetitionResult F)} {run : CaseRun F}
    (h : Answers (runRepetitions f64 arguments clock correctionCycles case workload caseIndex
      remaining repetition repetitions) t (.ok run)) :
    ∃ taken, TakenValid f64 clock correctionCycles caseIndex repetition taken ∧
      run.repetitions = repetitions ++ taken.map (·.result.cleared) ∧
      ((run.unsupported = none ∧ taken.length = remaining ∧
        t = takenEvents case workload caseIndex repetition taken) ∨
      ∃ control reason, run.unsupported = some reason ∧ taken.length < remaining ∧
        arguments.mode = .smoke ∧
        t = takenEvents case workload caseIndex repetition taken ++ refusedEvents case workload
          (controlFirst caseIndex (repetition + taken.length)) control reason) := by
  -- the number of the repetition goes up as the ones that remain go down
  induction remaining generalizing repetition repetitions t with
  | zero =>
    obtain ⟨rfl, rfl⟩ := answers_pure.mp h
    exact ⟨[], trivial, (List.append_nil _).symm, Or.inl ⟨rfl, rfl, rfl⟩⟩
  | succ remaining ih =>
    obtain ⟨pairEvents, rest, result, hpair, h₁, rfl⟩ := answers_bind.mp h
    cases result with
    | error reason =>
      obtain ⟨control, rfl⟩ := answers_runPair_error hpair
      -- behind a refusal only a smoke run goes on
      obtain ⟨hmode, h₂⟩ := answers_guard.mp h₁
      obtain ⟨rfl, rfl⟩ := answers_pure.mp h₂
      have hsmoke : arguments.mode = .smoke := by
        cases hcase : arguments.mode with
        | smoke => rfl
        | official => exact absurd hcase hmode
      refine ⟨[], trivial, (List.append_nil _).symm, Or.inr ⟨control, reason, rfl, ?_, hsmoke, ?_⟩⟩
      · exact Nat.zero_lt_succ _
      · exact List.append_nil _
    | ok pair =>
      -- the record stands between the trials and the later repetitions
      have hevents := answers_runPair_ok hpair
      obtain ⟨result, h₂, hnew⟩ := answers_fromExcept_bind.mp h₁
      obtain ⟨later, h₃, rfl⟩ := answers_write_bind.mp h₂
      obtain ⟨taken, hvalid, hrepetitions, hend⟩ := ih h₃
      have hcons (last : List (MeasureEvent F)) :
          pairEvents ++ ⟨.write (.repetition case workload result), .ok ()⟩ ::
            (takenEvents case workload caseIndex (repetition + 1) taken ++ last) =
          takenEvents case workload caseIndex repetition
            (⟨pair.control, pair.contender, result⟩ :: taken) ++ last := by
        rw [takenEvents, Taken.events, hevents]
        simp only [List.append_assoc, List.cons_append, List.nil_append]
      refine ⟨⟨pair.control, pair.contender, result⟩ :: taken, ⟨hnew, hvalid⟩, ?_, ?_⟩
      · rw [hrepetitions, List.append_assoc]
        rfl
      · rcases hend with ⟨hnone, hlength, rfl⟩ | ⟨control, reason, hsome, hlength, hmode, rfl⟩
        · refine Or.inl ⟨hnone, congrArg (· + 1) hlength, ?_⟩
          have hall := hcons []
          rw [List.append_nil, List.append_nil] at hall
          exact hall
        · refine Or.inr ⟨control, reason, hsome, Nat.succ_lt_succ hlength, hmode, ?_⟩
          rw [hcons, List.length_cons, Nat.add_right_comm, Nat.add_assoc]

/-- The cases are measured one after the other, each added to the summaries. -/
theorem answers_runCases {cases : List Case} {caseIndex : ℕ} {summaries result : List (Summary F)}
    (h : Answers (runCases f64 arguments clock correctionCycles workload cases caseIndex summaries) t
      (.ok result)) :
    ∃ later, result = summaries ++ later ∧
      CasesMeasured f64 arguments clock correctionCycles workload caseIndex cases later t := by
  induction cases generalizing caseIndex summaries t with
  | nil =>
    obtain ⟨rfl, rfl⟩ := answers_pure.mp h
    exact ⟨[], (List.append_nil _).symm, .nil caseIndex⟩
  | cons case cases ih =>
    obtain ⟨first, rest, ⟨repetitions, unsupported⟩, hrun, h₁, rfl⟩ := answers_bind.mp h
    obtain ⟨taken, hvalid, hrepetitions, hend⟩ := answers_runRepetitions hrun
    obtain rfl : repetitions = taken.map (·.result.cleared) := hrepetitions
    cases unsupported with
    | some reason =>
      -- the case leaves a record and no summary
      rcases hend with ⟨hnone, -⟩ | ⟨control, reason', hsome, hlength, hmode, hfirst⟩
      · cases hnone
      · obtain rfl := Option.some.inj hsome
        obtain ⟨rest, h₂, rfl⟩ := answers_write_bind.mp h₁
        obtain ⟨later, hresult, hlater⟩ := ih h₂
        have hmeasured : (Measured.refused taken control reason).Valid f64 arguments clock
            correctionCycles caseIndex := {
          taken := hvalid
          complete := fun _ h => by cases h
          refused := fun _ _ _ h => by
            cases h
            exact ⟨hlength, hmode⟩ }
        refine ⟨later, hresult, ?_⟩
        have hevents : first ++ ⟨.write (.skipped case workload reason), .ok ()⟩ :: rest =
            (Measured.refused taken control reason).events f64 case workload caseIndex ++ rest := by
          rw [hfirst, Nat.zero_add]
          simp only [Measured.events, Measured.taken, Measured.closing, refusedEvents,
            List.append_assoc, List.cons_append, List.nil_append]
        rw [hevents]
        exact .cons _ hmeasured hlater
    | none =>
      -- that there is a summary at all says that there were repetitions
      rcases hend with ⟨-, hlength, hfirst⟩ | ⟨_, _, hsome, -⟩
      · obtain ⟨summary, h₂, hsummary⟩ := answers_fromExcept_bind.mp h₁
        obtain ⟨rest, h₃, rfl⟩ := answers_write_bind.mp h₂
        obtain ⟨later, hresult, hlater⟩ := ih h₃
        have hsome : taken ≠ [] ∧
            summary = .ofRepetitions f64 case workload (taken.map (·.result.cleared)) := by
          unfold Summary.fromRepetitions at hsummary
          split at hsummary
          · cases hsummary
          · next hnonempty =>
            refine ⟨?_, (Except.ok.inj hsummary).symm⟩
            rintro rfl
            exact hnonempty rfl
        obtain ⟨hne, rfl⟩ := hsome
        have hmeasured : (Measured.complete taken).Valid f64 arguments clock correctionCycles
            caseIndex := {
          taken := hvalid
          complete := fun _ h => by
            cases h
            exact ⟨hlength, hne⟩
          refused := fun _ _ _ h => by cases h }
        refine ⟨.ofRepetitions f64 case workload (taken.map (·.result.cleared)) :: later, ?_, ?_⟩
        · rw [hresult, List.append_assoc]
          rfl
        · have hevents : first ++ ⟨.write (.summary (.ofRepetitions f64 case workload
              (taken.map (·.result.cleared)))), .ok ()⟩ :: rest =
              (Measured.complete taken).events f64 case workload caseIndex ++ rest := by
            rw [hfirst]
            simp only [Measured.events, Measured.taken, Measured.closing, List.append_assoc,
              List.cons_append, List.nil_append]
          rw [hevents]
          exact .cons (.complete taken) hmeasured hlater
      · cases hsome

/-- The chosen summary is the first of the best ones. -/
theorem isWinner_of_chooseWinner {summaries : List (Summary F)} {winner : Summary F}
    (h : chooseWinner summaries = some winner) : IsWinner summaries winner := by
  -- an eligible head is compared with the winner of the rest, and stands where none is below it
  induction summaries with
  | nil => cases h
  | cons summary summaries ih =>
    unfold chooseWinner at h ih
    cases heligible : summary.eligible with
    | false =>
      rw [List.filter_cons_of_neg (by rw [heligible]; exact Bool.false_ne_true)] at h
      obtain ⟨before, after, hsplit, hwinner, hbefore, hafter⟩ := ih h
      refine ⟨summary :: before, after, congrArg _ hsplit, hwinner, ?_, hafter⟩
      intro other hmem hother
      rcases List.mem_cons.mp hmem with rfl | hmem
      · rw [heligible] at hother
        cases hother
      · exact hbefore other hmem hother
    | true =>
      rw [List.filter_cons_of_pos heligible, List.argmin_cons] at h
      have hrest (other : Summary F) (hmem : other ∈ summaries) (hother : other.eligible = true) :
          other ∈ summaries.filter (·.eligible) := List.mem_filter.mpr ⟨hmem, hother⟩
      cases hleast : (summaries.filter (·.eligible)).argmin Summary.rankKey with
      | none =>
        rw [hleast] at h
        obtain rfl := Option.some.inj h
        refine ⟨[], summaries, rfl, heligible, fun _ hmem => absurd hmem List.not_mem_nil, ?_⟩
        intro other hmem hother
        have hmem := hrest other hmem hother
        rw [List.argmin_eq_none.mp hleast] at hmem
        exact absurd hmem List.not_mem_nil
      | some least =>
        rw [hleast] at h
        dsimp only at h
        split at h
        · next hless =>
          obtain rfl := Option.some.inj h
          obtain ⟨before, after, hsplit, hwinner, hbefore, hafter⟩ := ih hleast
          refine ⟨summary :: before, after, congrArg _ hsplit, hwinner, ?_, hafter⟩
          intro other hmem hother
          rcases List.mem_cons.mp hmem with rfl | hmem
          · exact hless
          · exact hbefore other hmem hother
        · next hless =>
          obtain rfl := Option.some.inj h
          refine ⟨[], summaries, rfl, heligible, fun _ hmem => absurd hmem List.not_mem_nil, ?_⟩
          intro other hmem hother
          have hle : least.rankKey ≤ other.rankKey :=
            List.le_of_mem_argmin (hrest other hmem hother) hleast
          exact (not_lt.mp hless).trans hle

/-- A workload that ends has measured its cases and reported them. -/
theorem answers_runWorkload {cases : List Case} {u : Unit}
    (h : Answers (runWorkload f64 arguments clock correctionCycles cases workload) t (.ok u)) :
    WorkloadMeasured f64 arguments clock correctionCycles cases workload t := by
  obtain ⟨events, rest, summaries, hcases, h₁, rfl⟩ := answers_bind.mp h
  obtain ⟨later, hsummaries, hmeasured⟩ := answers_runCases hcases
  rw [List.nil_append] at hsummaries
  subst hsummaries
  cases hwinner : chooseWinner summaries with
  | some winner =>
    rw [hwinner] at h₁
    obtain rfl := answers_write.mp h₁
    exact ⟨summaries, events, _, hmeasured,
      Or.inl ⟨winner, isWinner_of_chooseWinner hwinner, rfl⟩, rfl⟩
  | none =>
    rw [hwinner] at h₁
    obtain rfl := answers_write.mp h₁
    refine ⟨summaries, events, _, hmeasured, Or.inr ⟨?_, rfl⟩, rfl⟩
    intro summary hmem
    have hnone := List.filter_eq_nil_iff.mp (List.argmin_eq_none.mp hwinner) summary hmem
    exact Bool.eq_false_of_not_eq_true hnone

/-- A report that ends has been written as a whole. -/
theorem reported_of_answers {preflight : HardwarePreflight} {u : Unit}
    (h : Answers (writeReport f64 arguments clock correctionCycles preflight) t (.ok u)) :
    Reported f64 arguments clock correctionCycles preflight t := by
  obtain ⟨rest, h₁, rfl⟩ := answers_write_bind.mp h
  cases honly : arguments.preflightOnly with
  | true =>
    rw [honly, if_pos rfl] at h₁
    obtain ⟨rfl, -⟩ := answers_pure.mp h₁
    exact Or.inl ⟨honly, rfl⟩
  | false =>
    rw [honly, if_neg Bool.false_ne_true] at h₁
    obtain ⟨cases, h₂, hcases⟩ := answers_fromExcept_bind.mp h₁
    obtain ⟨saturated, bursty, _, hsaturated, h₃, rfl⟩ := answers_bind.mp h₂
    exact Or.inr ⟨honly, cases, saturated, bursty, hcases, answers_runWorkload hsaturated,
      answers_runWorkload h₃, rfl⟩

end Answers

section Finish

variable {F : Type} {f64 : SummaryF64 F} {arguments : Arguments} {clock : TscClock F}
  {correctionCycles : ℤ} {preflight : HardwarePreflight}
  {c : Prog (MeasureOp F) MeasureAns (Except String Unit) × List (MeasureEvent F)}

/-- Every call but the one that publishes the output. -/
def MeasureOp.Inner : MeasureOp F → Prop
  | .finish => False
  | _ => True

theorem within_write (record : Record F) : Within MeasureOp.Inner (write record) :=
  Within.bind (within_ask trivial) fun _ => trivial

theorem within_fromExcept {α : Type} (r : Except String α) :
    Within MeasureOp.Inner (fromExcept r : Measure F α) := trivial

theorem within_runVictimControl : Within MeasureOp.Inner (runVictimControl (F := F)) :=
  Within.bind (within_ask trivial) fun _ => trivial

theorem within_runContender (case : Case) (workload : Workload) :
    Within MeasureOp.Inner (runContender (F := F) case workload) := by
  apply Within.bind (within_ask trivial)
  intro answer
  rcases answer with (reason | error | error) | contender
  all_goals trivial

/-- A pair makes inner calls only. -/
theorem within_runPair (case : Case) (workload : Workload) (first : Bool) :
    Within MeasureOp.Inner (runPair (F := F) case workload first) := by
  unfold runPair
  apply Within.ite
  · apply within_runVictimControl.bind
    intro control
    apply (within_runContender case workload).bind
    intro result
    cases result <;> trivial
  · apply (within_runContender case workload).bind
    intro result
    cases result with
    | error reason => exact within_pure _
    | ok contender => exact within_runVictimControl.bind fun control => within_pure _

/-- So do its repetitions. -/
theorem within_runRepetitions (case : Case) (workload : Workload) (caseIndex remaining : ℕ)
    (repetition : ℕ) (repetitions : List (RepetitionResult F)) :
    Within MeasureOp.Inner (runRepetitions f64 arguments clock correctionCycles case workload
      caseIndex remaining repetition repetitions) := by
  induction remaining generalizing repetition repetitions with
  | zero => exact within_pure _
  | succ remaining ih =>
    apply (within_runPair case workload _).bind
    intro pair
    cases pair with
    | error reason => exact (within_throw _).ite (within_pure _)
    | ok pair =>
      apply (within_fromExcept _).bind
      intro result
      exact (within_write _).bind fun _ => ih _ _

/-- So do the cases of a workload. -/
theorem within_runCases (workload : Workload) (cases : List Case) (caseIndex : ℕ)
    (summaries : List (Summary F)) :
    Within MeasureOp.Inner (runCases f64 arguments clock correctionCycles workload cases caseIndex
      summaries) := by
  induction cases generalizing caseIndex summaries with
  | nil => exact within_pure _
  | cons case cases ih =>
    apply (within_runRepetitions case workload caseIndex _ _ _).bind
    intro run
    obtain ⟨repetitions, unsupported⟩ := run
    cases unsupported with
    | some reason => exact (within_write _).bind fun _ => ih _ _
    | none =>
      apply (within_fromExcept _).bind
      intro summary
      exact (within_write _).bind fun _ => ih _ _

theorem within_runWorkload (cases : List Case) (workload : Workload) :
    Within MeasureOp.Inner (runWorkload f64 arguments clock correctionCycles cases workload) := by
  apply (within_runCases workload cases 0 []).bind
  intro summaries
  cases hwinner : chooseWinner summaries with
  | some winner => exact within_write _
  | none => exact within_write _

theorem within_writeReport :
    Within MeasureOp.Inner (writeReport f64 arguments clock correctionCycles preflight) := by
  apply (within_write _).bind
  intro u
  apply (within_pure _).ite
  apply (within_fromExcept _).bind
  intro cases
  exact (within_runWorkload cases .saturated).bind fun _ => within_runWorkload cases .bursty

/-- Either the end of the output has not been called for, or its answer is the result, and a report
stands before it. -/
theorem finish_last (h : Reach (traceMachine (MeasureOp F) MeasureAns)
      ((measure f64 arguments clock correctionCycles preflight).run, []) c) :
    ((∀ e ∈ c.2, e.1.Inner) ∧ c.1 ≠ .ret (.ok ())) ∨
      ∃ before r, c = (.ret r, before ++ [⟨.finish, r⟩]) ∧ (∀ e ∈ before, e.1.Inner) ∧
        Reported f64 arguments clock correctionCycles preflight before := by
  rcases reach_last_call within_writeReport (fun _ => MeasureOp.finish) (fun _ x => x) h with
    ⟨hinner, hnot⟩ | ⟨before, u, r, hinner, hanswers, hc⟩
  · exact Or.inl ⟨hinner, hnot ()⟩
  · exact Or.inr ⟨before, r, hc, hinner, reported_of_answers hanswers⟩

/-- At no point of a run has the output been published with less than a report in it: what publishes
it is the last call, and its answer is the result of the run; and no other run succeeds. -/
theorem report_whole_when_finished (h : Reach (traceMachine (MeasureOp F) MeasureAns)
      ((measure f64 arguments clock correctionCycles preflight).run, []) c) :
    (∀ r, (⟨.finish, r⟩ : MeasureEvent F) ∈ c.2 → c.1 = .ret r ∧
      ∃ before, c.2 = before ++ [⟨.finish, r⟩] ∧
        Reported f64 arguments clock correctionCycles preflight before) ∧
    (c.1 = .ret (.ok ()) → (⟨.finish, .ok ()⟩ : MeasureEvent F) ∈ c.2) := by
  rcases finish_last h with ⟨hinner, hnot⟩ | ⟨before, r, rfl, hinner, hreported⟩
  · exact ⟨fun r hmem => (hinner _ hmem).elim, fun hret => absurd hret hnot⟩
  · constructor
    · intro r' hmem
      cases eq_last_call hinner hmem not_false
      exact ⟨rfl, before, rfl, hreported⟩
    · intro hret
      cases hret
      exact List.mem_append_right _ List.mem_cons_self

end Finish

section Official

variable {F : Type} {f64 : SummaryF64 F} {arguments : Arguments} {clock : TscClock F}
  {correctionCycles : ℤ} {preflight : HardwarePreflight} {case : Case} {workload : Workload}
  {taken : List (Taken F)} {caseIndex first : ℕ}

def MeasureOp.record? : MeasureOp F → Option (Record F)
  | .write record => some record
  | _ => none

/-- The records of the output, in their order. -/
def written (t : List (MeasureEvent F)) : List (Record F) := t.filterMap (·.1.record?)

/-- The summary of a case, given the results of each case. -/
def caseSummary (f64 : SummaryF64 F) (workload : Workload)
    (results : Case → List (RepetitionResult F)) (case : Case) : Summary F :=
  .ofRepetitions f64 case workload ((results case).map (·.cleared))

def caseRecords (f64 : SummaryF64 F) (workload : Workload)
    (results : Case → List (RepetitionResult F)) (case : Case) : List (Record F) :=
  (results case).map (Record.repetition case workload) ++
    [.summary (caseSummary f64 workload results case)]

/-- Case by case all the repetitions and their summary, and at the end the verdict over all. -/
def WholeWorkload (f64 : SummaryF64 F) (repetitions : ℕ) (cases : List Case) (workload : Workload)
    (records : List (Record F)) : Prop :=
  ∃ results verdict,
    (∀ case ∈ cases, (results case).map RepetitionResult.repetition = List.range repetitions) ∧
    Verdict workload (cases.map (caseSummary f64 workload results)) ⟨.write verdict, .ok ()⟩ ∧
    records = cases.flatMap (caseRecords f64 workload results) ++ [verdict]

theorem written_append (t t' : List (MeasureEvent F)) :
    written (t ++ t') = written t ++ written t' := List.filterMap_append

theorem written_taken (repetition : ℕ) (taken : Taken F) :
    written (taken.events case workload caseIndex repetition) =
      [.repetition case workload taken.result] := by
  unfold Taken.events
  cases controlFirst caseIndex repetition <;> rfl

theorem written_takenEvents : written (takenEvents case workload caseIndex first taken) =
    taken.map fun taken => .repetition case workload taken.result := by
  induction taken generalizing first with
  | nil => rfl
  | cons head taken ih =>
    rw [takenEvents, written_append, written_taken, ih]
    rfl

theorem new_repetition {repetition : ℕ} {controlFirst : Bool} {control : VictimMetrics}
    {contender : ContenderTrial} {result : RepetitionResult F}
    (h : RepetitionResult.new f64.toF64 repetition controlFirst control contender clock
      correctionCycles = .ok result) : result.repetition = repetition := by
  unfold RepetitionResult.new at h
  obtain ⟨-, h⟩ := guard_eq_ok.mp h
  obtain ⟨maxCycles, -, h⟩ := bind_eq_ok.mp h
  obtain ⟨-, h⟩ := guard_eq_ok.mp h
  obtain ⟨percent, -, h⟩ := bind_eq_ok.mp h
  rw [pure_eq_ok.mp h]

theorem numbered_of_takenValid (h : TakenValid f64 clock correctionCycles caseIndex first taken) :
    taken.map (·.result.repetition) = List.range' first taken.length := by
  induction taken generalizing first with
  | nil => rfl
  | cons head taken ih =>
    rw [List.map_cons, List.length_cons, List.range'_succ, new_repetition h.1, ih h.2]

/-- In official mode no case is refused. -/
theorem CasesMeasured.whole {cases : List Case} {summaries : List (Summary F)}
    {events : List (MeasureEvent F)} (h : CasesMeasured f64 arguments clock correctionCycles workload
      caseIndex cases summaries events) (hmode : arguments.mode = .official)
    (hnodup : cases.Nodup) :
    ∃ results : Case → List (RepetitionResult F),
      (∀ case ∈ cases,
        (results case).map RepetitionResult.repetition = List.range arguments.repetitions) ∧
      summaries = cases.map (caseSummary f64 workload results) ∧
      written events = cases.flatMap (caseRecords f64 workload results) := by
  induction h with
  | nil => exact ⟨fun _ => [], fun _ hmem => absurd hmem List.not_mem_nil, rfl, rfl⟩
  | @cons caseIndex case cases summaries events measured valid rest ih =>
    obtain ⟨hnew, hnodup⟩ := List.nodup_cons.mp hnodup
    obtain ⟨results, hnumbered, hsummaries, hwritten⟩ := ih hnodup
    cases measured with
    | refused taken control reason =>
      -- only a smoke run goes on behind a refusal
      have hsmoke := (valid.refused taken control reason rfl).2
      rw [hmode] at hsmoke
      cases hsmoke
    | complete taken =>
      have hlength := (valid.complete taken rfl).1
      -- no later case is this one, so what is known of them is not touched
      have hold (other : Case) (hmem : other ∈ cases) :
          Function.update results case (taken.map (·.result)) other = results other :=
        by
        apply Function.update_of_ne
        rintro rfl
        exact hnew hmem
      have hown : caseSummary f64 workload
          (Function.update results case (taken.map (·.result))) case =
            .ofRepetitions f64 case workload (taken.map (·.result.cleared)) := by
        rw [caseSummary, Function.update_self, List.map_map]
        rfl
      refine ⟨Function.update results case (taken.map (·.result)), ?_, ?_, ?_⟩
      · intro other hmem
        rcases List.mem_cons.mp hmem with rfl | hmem
        · rw [Function.update_self, List.map_map, List.range_eq_range', ← hlength]
          exact numbered_of_takenValid valid.taken
        · rw [hold other hmem]
          exact hnumbered other hmem
      · have hlater : cases.map (caseSummary f64 workload results) = cases.map (caseSummary f64
            workload (Function.update results case (taken.map (·.result)))) := by
          apply List.map_congr_left
          intro other hmem
          rw [caseSummary, caseSummary, hold other hmem]
        rw [List.map_cons, hown, ← hlater, ← hsummaries]
        rfl
      · have hlater : cases.flatMap (caseRecords f64 workload results) = cases.flatMap (caseRecords
            f64 workload (Function.update results case (taken.map (·.result)))) := by
          apply List.flatMap_congr
          intro other hmem
          rw [caseRecords, caseRecords, caseSummary, caseSummary, hold other hmem]
        rw [written_append, hwritten, hlater, List.flatMap_cons, caseRecords, hown,
          Function.update_self, List.map_map, Measured.events, written_append]
        exact congrArg (· ++ _ ++ _) written_takenEvents

/-- What an official run writes of a workload is the whole of it. -/
theorem WorkloadMeasured.whole {cases : List Case} {t : List (MeasureEvent F)}
    (h : WorkloadMeasured f64 arguments clock correctionCycles cases workload t)
    (hmode : arguments.mode = .official) (hnodup : cases.Nodup) :
    WholeWorkload f64 arguments.repetitions cases workload (written t) := by
  obtain ⟨summaries, events, e, hmeasured, hverdict, rfl⟩ := h
  obtain ⟨results, hnumbered, rfl, hwritten⟩ := hmeasured.whole hmode hnodup
  have hrecord : ∃ record, e = ⟨.write record, .ok ()⟩ := by
    rcases hverdict with ⟨winner, -, rfl⟩ | ⟨-, rfl⟩
    · exact ⟨_, rfl⟩
    · exact ⟨_, rfl⟩
  obtain ⟨verdict, rfl⟩ := hrecord
  refine ⟨results, verdict, hnumbered, hverdict, ?_⟩
  rw [written_append, hwritten]
  rfl

/-- Whatever the calls answer, an official output that is published has for both workloads and for
each case of the matrix at least seven repetitions, all of those that were asked for, and one summary
of just these, and a verdict over all the summaries; and nothing else. -/
theorem official_report_complete {args : List String} (hargs : Arguments.parse args = .ok arguments)
    (hmode : arguments.mode = .official) (hmeasures : arguments.preflightOnly = false)
    {p : Prog (MeasureOp F) MeasureAns (Except String Unit)} {t : List (MeasureEvent F)}
    (h : Reach (traceMachine (MeasureOp F) MeasureAns)
      ((measure f64 arguments clock correctionCycles preflight).run, []) (p, t))
    {r : Except String Unit} (hfinish : (⟨.finish, r⟩ : MeasureEvent F) ∈ t) :
    7 ≤ arguments.repetitions ∧ ∃ saturated bursty,
      WholeWorkload f64 arguments.repetitions (everyCase preflight.matrix) .saturated saturated ∧
      WholeWorkload f64 arguments.repetitions (everyCase preflight.matrix) .bursty bursty ∧
      written t = .metadata :: saturated ++ bursty := by
  obtain ⟨slots, -, hslots⟩ := bind_eq_ok.mp hargs
  obtain ⟨-, hrepetitions, -, -, hfilter⟩ := (arguments_eq_ok.mp hslots).2.official hmode
  rcases finish_last h with ⟨hinner, -⟩ | ⟨before, r', hc, -, hreported⟩
  · exact (hinner _ hfinish).elim
  · cases hc
    rcases hreported with
      ⟨honly, -⟩ | ⟨-, cases, saturated, bursty, hcases, hsaturated, hbursty, rfl⟩
    · rw [hmeasures] at honly
      cases honly
    · -- an official run takes no filter, so its cases are all of the matrix
      rw [hfilter] at hcases
      obtain rfl := Except.ok.inj hcases
      refine ⟨hrepetitions, written saturated, written bursty,
        hsaturated.whole hmode (everyCase_nodup _), hbursty.whole hmode (everyCase_nodup _), ?_⟩
      rw [written_append, List.cons_append]
      change _ :: written (saturated ++ bursty) ++ [] = _
      rw [List.append_nil, written_append]
      rfl

end Official

def sampleF64 : SummaryF64 ℚ := { exactF64 with totalLe := (· ≤ ·) }

def sampleVictim : VictimMetrics := ⟨1000000, 10 ^ 9, 100⟩

def sampleContender : ContenderTrial := ⟨⟨[10], none, 0, 0, 0, false⟩, sampleVictim⟩

/-- A machine on which every case is supported and every trial has one sample. -/
def sampleMachine : (op : MeasureOp ℚ) → Option (MeasureAns op)
  | .runVictimControl => some (.ok sampleVictim)
  | .runCase _ _ => some (.ok sampleContender)
  | .write _ => some (.ok ())
  | .finish => some (.ok ())

def sampleArguments : Arguments where
  mode := .official
  trialDuration := 250000000
  repetitions := 7
  warmupEvents := 1024
  maxSamples := 5000000
  waiterCpu := none
  victimCpu := none
  producerCpu := none
  controllerCpu := none
  output := "target/snoozer-bench/results.jsonl"
  caseFilter := none
  preflightOnly := false

theorem parse_sampleArguments : Arguments.parse ["--official"] = .ok sampleArguments := by
  rfl

section Sample

variable {arguments : Arguments} {case : Case} {workload : Workload}

theorem sampleMachine_runPair (first : Bool) : Yields sampleMachine
    (runPair case workload first) (.ok ⟨sampleVictim, sampleContender⟩) := by
  cases first <;> rfl

theorem sampleMachine_write (record : Record ℚ) : Yields sampleMachine (write record) () := rfl

/-- The sample's machine carries out any number of repetitions. -/
theorem sampleMachine_runRepetitions (arguments : Arguments) (case : Case) (workload : Workload)
    (caseIndex remaining repetition : ℕ) (repetitions : List (RepetitionResult ℚ)) :
    ∃ later : List (RepetitionResult ℚ), later.length = remaining ∧
      Yields sampleMachine (runRepetitions sampleF64 arguments ⟨1, 0⟩ 0 case workload caseIndex
        remaining repetition repetitions) ⟨repetitions ++ later, none⟩ := by
  induction remaining generalizing repetition repetitions with
  | zero => exact ⟨[], rfl, by rw [List.append_nil]; exact yields_pure.mpr rfl⟩
  | succ remaining ih =>
    have hnew : ∃ result, RepetitionResult.new sampleF64.toF64 repetition
        (controlFirst caseIndex repetition) sampleVictim sampleContender ⟨1, 0⟩ 0 = .ok result :=
      new_isOk (List.cons_ne_nil 10 []) rfl (by decide +kernel) (by decide)
    obtain ⟨result, hresult⟩ := hnew
    obtain ⟨later, hlength, hlater⟩ := ih (repetition + 1) (repetitions ++ [result.cleared])
    refine ⟨result.cleared :: later, congrArg (· + 1) hlength, ?_⟩
    rw [List.append_assoc] at hlater
    refine yields_bind.mpr ⟨_, sampleMachine_runPair _, ?_⟩
    refine yields_bind.mpr ⟨result, yields_fromExcept.mpr hresult, ?_⟩
    exact yields_bind.mpr ⟨(), sampleMachine_write _, hlater⟩

/-- It carries out the cases of any workload. -/
theorem sampleMachine_runCases (hrepetitions : arguments.repetitions ≠ 0) (workload : Workload)
    (cases : List Case) (caseIndex : ℕ) (summaries : List (Summary ℚ)) :
    ∃ result, Yields sampleMachine
      (runCases sampleF64 arguments ⟨1, 0⟩ 0 workload cases caseIndex summaries) result := by
  induction cases generalizing caseIndex summaries with
  | nil => exact ⟨summaries, yields_pure.mpr rfl⟩
  | cons case cases ih =>
    obtain ⟨repetitions, hlength, hrun⟩ := sampleMachine_runRepetitions arguments case workload
      caseIndex arguments.repetitions 0 []
    have hsummary : Summary.fromRepetitions sampleF64 case workload ([] ++ repetitions) =
        .ok (.ofRepetitions sampleF64 case workload repetitions) := by
      apply if_neg
      intro hempty
      rw [show repetitions = [] from List.isEmpty_iff.mp hempty] at hlength
      exact hrepetitions hlength.symm
    obtain ⟨result, hresult⟩ := ih (caseIndex + 1)
      (summaries ++ [.ofRepetitions sampleF64 case workload repetitions])
    refine ⟨result, yields_bind.mpr ⟨_, hrun, ?_⟩⟩
    refine yields_bind.mpr ⟨_, yields_fromExcept.mpr hsummary, ?_⟩
    exact yields_bind.mpr ⟨(), sampleMachine_write _, hresult⟩

theorem sampleMachine_runWorkload (hrepetitions : arguments.repetitions ≠ 0) (cases : List Case)
    (workload : Workload) : Yields sampleMachine
      (runWorkload sampleF64 arguments ⟨1, 0⟩ 0 cases workload) () := by
  obtain ⟨summaries, hsummaries⟩ :=
    sampleMachine_runCases hrepetitions workload cases 0 []
  refine yields_bind.mpr ⟨summaries, hsummaries, ?_⟩
  cases chooseWinner summaries with
  | some winner => exact sampleMachine_write _
  | none => exact sampleMachine_write _

end Sample

theorem sampleMachine_measure (preflight : HardwarePreflight) : Yields sampleMachine
    (measure sampleF64 sampleArguments ⟨1, 0⟩ 0 preflight) () := by
  have hrepetitions : sampleArguments.repetitions ≠ 0 := by decide
  have hreport : Yields sampleMachine
      (writeReport sampleF64 sampleArguments ⟨1, 0⟩ 0 preflight) () := by
    refine yields_bind.mpr ⟨(), sampleMachine_write _, ?_⟩
    refine yields_bind.mpr ⟨everyCase preflight.matrix, yields_fromExcept.mpr rfl, ?_⟩
    exact yields_bind.mpr ⟨(), sampleMachine_runWorkload hrepetitions _ _,
      sampleMachine_runWorkload hrepetitions _ _⟩
  exact yields_bind.mpr ⟨(), hreport, rfl⟩

/-- Such a run to its end. -/
theorem sampleMachine_finishes (preflight : HardwarePreflight) : ∃ t,
    Reach (traceMachine (MeasureOp ℚ) MeasureAns)
      ((measure sampleF64 sampleArguments ⟨1, 0⟩ 0 preflight).run, []) (.ret (.ok ()), t) := by
  obtain ⟨t, ht, -⟩ := Prog.answered_of_answer (sampleMachine_measure preflight)
  exact ⟨t, ht.reach []⟩

/-- The whole report of that run. -/
theorem report_whole_when_finished_sample : ∃ t before,
    Reach (traceMachine (MeasureOp ℚ) MeasureAns)
      ((measure sampleF64 sampleArguments ⟨1, 0⟩ 0 (.failed .preflightRequired)).run, [])
      (.ret (.ok ()), t) ∧
    t = before ++ [⟨.finish, .ok ()⟩] ∧
    Reported sampleF64 sampleArguments ⟨1, 0⟩ 0 (.failed .preflightRequired) before := by
  obtain ⟨t, hrun⟩ := sampleMachine_finishes (.failed .preflightRequired)
  obtain ⟨hfinished, hsucceeded⟩ := report_whole_when_finished hrun
  obtain ⟨-, before, ht, hreported⟩ := hfinished _ (hsucceeded rfl)
  exact ⟨t, before, hrun, ht, hreported⟩

/-- On a host without a hardware wait there are 31 cases. -/
theorem official_report_complete_sample : ∃ t saturated bursty,
    Reach (traceMachine (MeasureOp ℚ) MeasureAns)
      ((measure sampleF64 sampleArguments ⟨1, 0⟩ 0 (.failed .preflightRequired)).run, [])
      (.ret (.ok ()), t) ∧
    (everyCase (benchmarkMatrix none)).length = 31 ∧
    WholeWorkload sampleF64 7 (everyCase (benchmarkMatrix none)) .saturated saturated ∧
    WholeWorkload sampleF64 7 (everyCase (benchmarkMatrix none)) .bursty bursty ∧
    written t = .metadata :: saturated ++ bursty := by
  obtain ⟨t, hrun⟩ := sampleMachine_finishes (.failed .preflightRequired)
  have hfinish : (⟨.finish, .ok ()⟩ : MeasureEvent ℚ) ∈ t := by
    rcases finish_last hrun with ⟨-, hnot⟩ | ⟨before, r, hc, -⟩
    · exact absurd rfl hnot
    · cases hc
      exact List.mem_append_right _ List.mem_cons_self
  obtain ⟨-, saturated, bursty, hsaturated, hbursty, hwritten⟩ :=
    official_report_complete parse_sampleArguments rfl rfl hrun hfinish
  exact ⟨t, saturated, bursty, hrun, by decide, hsaturated, hbursty, hwritten⟩

end Snoozer.WakeLatency
