import Snoozer.JsonlOutput
import Snoozer.TscHandshake
import Snoozer.Results
import Mathlib.Data.Rat.Defs
import Mathlib.Algebra.Group.Nat.Defs

/-! What becomes of the latency events of a trial: the waiter classifies each of them when it
records it, and the correction of the time stamps classifies those that are kept once more. -/
namespace Snoozer.WakeLatency
open Results

/-- `i64::try_from`. -/
def i64TryFrom (value : ℤ) : Option ℤ :=
  if -2 ^ 63 ≤ value ∧ value < 2 ^ 63 then some value else none

/-- `u64::try_from`. -/
def u64TryFrom (value : ℤ) : Option ℕ :=
  if 0 ≤ value ∧ value < 2 ^ 64 then some value.toNat else none

structure WaiterMetrics where
  latenciesCycles : List ℤ
  unclassifiedWakes : Option ℕ
  publicTimeouts : ℕ
  invalidSamples : ℕ
  migratedSamples : ℕ
  sampleLimitReached : Bool
  deriving DecidableEq, Repr

def WaiterMetrics.new (filtering : Filtering) : WaiterMetrics where
  latenciesCycles := []
  unclassifiedWakes := if filtering = .raw then some 0 else none
  publicTimeouts := 0
  invalidSamples := 0
  migratedSamples := 0
  sampleLimitReached := false

/-- One wait, which returns a new generation after some unclassified wakes, and what the other
threads and the clock then show. -/
structure Wake where
  unclassified : ℕ
  generation : ℕ
  stopped : Bool
  received : Stamp
  sentCycles : ℕ
  deriving DecidableEq, Repr

/-- The waiter's variables, what it has itself stored in `stop` and in `acknowledged`, and the wakes
that it has recorded so far. -/
structure Waiter where
  metrics : WaiterMetrics
  events : ℕ
  stop : Bool
  acknowledged : ℕ
  recorded : List Wake
  deriving DecidableEq, Repr

def Waiter.new (filtering : Filtering) : Waiter := ⟨.new filtering, 0, false, 0, []⟩

/-- A sample that is in range, and whether the cap is reached with it. -/
def WaiterMetrics.keep (metrics : WaiterMetrics) (maxSamples : ℕ) (rawCycles : ℤ) :
    WaiterMetrics × Bool :=
  let metrics :=
    { metrics with latenciesCycles := metrics.latenciesCycles ++ [rawCycles] }
  if metrics.latenciesCycles.length = maxSamples then
    ({ metrics with sampleLimitReached := true }, true)
  else
    (metrics, false)

def recordSample (expectedAux warmupEvents maxSamples : ℕ) (wake : Wake) (waiter : Waiter) :
    Waiter :=
  let metrics := waiter.metrics
  let (metrics, stop) :=
    if wake.received.auxiliary ≠ expectedAux then
      ({ metrics with migratedSamples := saturatingAdd64 metrics.migratedSamples 1 }, false)
    else
      match i64TryFrom ((wake.received.cycles : ℤ) - wake.sentCycles) with
      | some rawCycles =>
        if warmupEvents ≤ waiter.events ∧ metrics.latenciesCycles.length < maxSamples then
          metrics.keep maxSamples rawCycles
        else
          (metrics, false)
      | none =>
        ({ metrics with invalidSamples := saturatingAdd64 metrics.invalidSamples 1 }, false)
  { metrics
    events := saturatingAdd64 waiter.events 1
    stop := waiter.stop || stop
    acknowledged := wake.generation
    recorded := waiter.recorded ++ [wake] }

def Waiter.countUnclassified (waiter : Waiter) (wake : Wake) : Waiter :=
  { waiter with metrics.unclassifiedWakes :=
      waiter.metrics.unclassifiedWakes.map fun count => saturatingAdd64 count wake.unclassified }

/-- The loop that `run_direct`, `run_parker` and `run_std_park` share; without an observed `stop` it
is still waiting. -/
def waiterLoop (expectedAux warmupEvents maxSamples : ℕ) : List Wake → Waiter → Option Waiter
  | [], _ => none
  | wake :: wakes, waiter =>
    let waiter := waiter.countUnclassified wake
    if waiter.stop || wake.stopped then
      some waiter
    else
      waiterLoop expectedAux warmupEvents maxSamples wakes
        (recordSample expectedAux warmupEvents maxSamples wake waiter)

inductive SampleSetError where
  | sampleCapExhausted (maxSamples : ℕ)
  | empty
  deriving DecidableEq, Repr

def validateSampleSet (sampleLimitReached : Bool) (sampleCount maxSamples : ℕ) :
    Except SampleSetError Unit :=
  if sampleLimitReached then
    .error (.sampleCapExhausted maxSamples)
  else if sampleCount = 0 then
    .error .empty
  else
    .ok ()

structure VictimMetrics where
  operations : ℕ
  elapsed : ℕ
  p99ChunkNs : ℕ
  deriving DecidableEq, Repr

structure ContenderTrial where
  waiter : WaiterMetrics
  victim : VictimMetrics
  deriving DecidableEq, Repr

inductive TrialError where
  | sampleSet (error : SampleSetError)
  | failed (text : String)
  deriving DecidableEq, Repr

/-- What each surface does with the results of its threads, once all have been joined. -/
def concludeTrial (driveResult : Except String Unit) (waiterResult : Except String WaiterMetrics)
    (producerResult : Except String Unit) (victimResult : Except String VictimMetrics)
    (maxSamples : ℕ) : Except TrialError ContenderTrial := do
  driveResult.mapError TrialError.failed
  let waiterMetrics ← waiterResult.mapError TrialError.failed
  producerResult.mapError TrialError.failed
  let victimMetrics ← victimResult.mapError TrialError.failed
  (validateSampleSet waiterMetrics.sampleLimitReached waiterMetrics.latenciesCycles.length
    maxSamples).mapError TrialError.sampleSet
  return ⟨waiterMetrics, victimMetrics⟩

/-- What is used of `f64`; `toU64` is `as u64`. -/
structure F64 (F : Type) where
  ofNat : ℕ → F
  literal : ℚ → F
  asSecs : ℕ → F
  sub : F → F → F
  mul : F → F → F
  div : F → F → F
  le : F → F → Bool
  isFinite : F → Bool
  ceil : F → F
  round : F → F
  toU64 : F → ℕ

section Repetition

variable {F : Type} (f64 : F64 F)

structure TscClock (F : Type) where
  cyclesPerNs : F
  spreadPercent : F

def TscClock.cyclesToNs (clock : TscClock F) (cycles : ℕ) : ℕ :=
  f64.toU64 (f64.round (f64.div (f64.ofNat cycles) clock.cyclesPerNs))

def VictimMetrics.throughputMops (victim : VictimMetrics) : F :=
  f64.div (f64.div (f64.ofNat victim.operations) (f64.asSecs victim.elapsed))
    (f64.literal 1000000)

def percentileSorted (values : List ℕ) (quantile : F) : ℕ :=
  let rank := f64.toU64 (f64.ceil (f64.mul quantile (f64.ofNat values.length)))
  values.getD (min (rank - 1) (values.length - 1)) 0

def percentChange (baseline measured : ℕ) : Except String F :=
  if baseline = 0 then
    .error "zero baseline cannot produce a percentage change"
  else
    .ok (f64.mul (f64.div (f64.sub (f64.ofNat measured) (f64.ofNat baseline))
      (f64.ofNat baseline)) (f64.literal 100))

def correctLatency (rawCycles waiterMinusProducerCycles : ℤ) : Option ℕ :=
  u64TryFrom (rawCycles - waiterMinusProducerCycles)

/-- The samples that the correction keeps, and the count of the invalid ones. -/
def correctSamples (correctionCycles : ℤ) : List ℤ → ℕ → List ℕ × ℕ
  | [], invalidSamples => ([], invalidSamples)
  | rawCycles :: rest, invalidSamples =>
    match correctLatency rawCycles correctionCycles with
    | none => correctSamples correctionCycles rest (saturatingAdd64 invalidSamples 1)
    | some corrected =>
      let (samples, invalidSamples) := correctSamples correctionCycles rest invalidSamples
      (corrected :: samples, invalidSamples)

structure RepetitionResult (F : Type) where
  repetition : ℕ
  controlFirst : Bool
  samples : ℕ
  p50Cycles : ℕ
  p90Cycles : ℕ
  p99Cycles : ℕ
  p999Cycles : ℕ
  maxCycles : ℕ
  p50Ns : ℕ
  p90Ns : ℕ
  p99Ns : ℕ
  p999Ns : ℕ
  maxNs : ℕ
  unclassifiedWakes : Option ℕ
  publicTimeouts : ℕ
  invalidSamples : ℕ
  migratedSamples : ℕ
  sampleLimitReached : Bool
  victimControlMops : F
  victimContenderMops : F
  victimControlP99Ns : ℕ
  victimContenderP99Ns : ℕ
  throughputLossPercent : F
  victimP99DegradationPercent : F
  rawLatencyCycles : List ℕ

def RepetitionResult.new (repetition : ℕ) (controlFirst : Bool) (control : VictimMetrics)
    (contender : ContenderTrial) (clock : TscClock F) (correctionCycles : ℤ) :
    Except String (RepetitionResult F) :=
  let (rawLatencyCycles, invalidSamples) := correctSamples correctionCycles
    contender.waiter.latenciesCycles contender.waiter.invalidSamples
  if rawLatencyCycles.isEmpty then
    .error "TSC correction invalidated every latency sample"
  else do
  let latencies := rawLatencyCycles.mergeSort
  let p50Cycles := percentileSorted f64 latencies (f64.literal 0.50)
  let p90Cycles := percentileSorted f64 latencies (f64.literal 0.90)
  let p99Cycles := percentileSorted f64 latencies (f64.literal 0.99)
  let p999Cycles := percentileSorted f64 latencies (f64.literal 0.999)
  let maxCycles ← (latencies.getLast?).elim (.error "latency sample set is empty") .ok
  let controlMops := control.throughputMops f64
  let contenderMops := contender.victim.throughputMops f64
  if f64.isFinite controlMops = false ∨ f64.le controlMops (f64.literal 0) = true then
    .error "invalid victim-only control throughput"
  else do
  let victimP99DegradationPercent ←
    percentChange f64 control.p99ChunkNs contender.victim.p99ChunkNs
  return {
    repetition
    controlFirst
    samples := latencies.length
    p50Cycles
    p90Cycles
    p99Cycles
    p999Cycles
    maxCycles
    p50Ns := clock.cyclesToNs f64 p50Cycles
    p90Ns := clock.cyclesToNs f64 p90Cycles
    p99Ns := clock.cyclesToNs f64 p99Cycles
    p999Ns := clock.cyclesToNs f64 p999Cycles
    maxNs := clock.cyclesToNs f64 maxCycles
    unclassifiedWakes := contender.waiter.unclassifiedWakes
    publicTimeouts := contender.waiter.publicTimeouts
    invalidSamples
    migratedSamples := contender.waiter.migratedSamples
    sampleLimitReached := contender.waiter.sampleLimitReached
    victimControlMops := controlMops
    victimContenderMops := contenderMops
    victimControlP99Ns := control.p99ChunkNs
    victimContenderP99Ns := contender.victim.p99ChunkNs
    throughputLossPercent :=
      f64.mul (f64.div (f64.sub controlMops contenderMops) controlMops) (f64.literal 100)
    victimP99DegradationPercent
    rawLatencyCycles }

end Repetition

def Wake.latency (wake : Wake) : ℤ := wake.received.cycles - wake.sentCycles

def Wake.migrated (expectedAux : ℕ) (wake : Wake) : Bool := wake.received.auxiliary != expectedAux

def Wake.inRange (wake : Wake) : Bool := -2 ^ 63 ≤ wake.latency && wake.latency < 2 ^ 63

def Wake.valid (expectedAux : ℕ) (wake : Wake) : Bool := !wake.migrated expectedAux && wake.inRange

def Wake.invalid (expectedAux : ℕ) (wake : Wake) : Bool :=
  !wake.migrated expectedAux && !wake.inRange

/-- The valid events after the warm-up. -/
def keptWakes (expectedAux warmupEvents : ℕ) (recorded : List Wake) : List Wake :=
  (recorded.drop warmupEvents).filter (Wake.valid expectedAux)

def warmupWakes (expectedAux warmupEvents : ℕ) (recorded : List Wake) : ℕ :=
  (recorded.take warmupEvents).countP (Wake.valid expectedAux)

/-- The variables of the waiter, in terms of the wakes that it has recorded. -/
structure Waiter.Accounts (expectedAux warmupEvents maxSamples : ℕ) (waiter : Waiter) : Prop where
  events : waiter.events = min waiter.recorded.length u64Max
  kept : waiter.metrics.latenciesCycles =
    (keptWakes expectedAux warmupEvents waiter.recorded).map Wake.latency
  migrated : waiter.metrics.migratedSamples =
    min (waiter.recorded.countP (Wake.migrated expectedAux)) u64Max
  invalid : waiter.metrics.invalidSamples =
    min (waiter.recorded.countP (Wake.invalid expectedAux)) u64Max
  withinCap : waiter.metrics.latenciesCycles.length ≤ maxSamples
  limit : waiter.metrics.sampleLimitReached = true ↔
    waiter.metrics.latenciesCycles.length = maxSamples
  stop : waiter.stop = waiter.metrics.sampleLimitReached

theorem saturatingAdd64_min (a b : ℕ) : saturatingAdd64 (min a u64Max) b = min (a + b) u64Max := by
  unfold saturatingAdd64 u64Max
  omega

theorem keptWakes_of_lt {expectedAux warmupEvents : ℕ} {recorded : List Wake}
    (h : recorded.length ≤ warmupEvents) : keptWakes expectedAux warmupEvents recorded = [] := by
  unfold keptWakes
  rw [List.drop_eq_nil_of_le h, List.filter_nil]

theorem length_eq_classes (expectedAux : ℕ) (recorded : List Wake) :
    recorded.length = recorded.countP (Wake.valid expectedAux) +
      recorded.countP (Wake.invalid expectedAux) +
      recorded.countP (Wake.migrated expectedAux) := by
  induction recorded with
  | nil => rfl
  | cons wake rest ih =>
    rw [List.length_cons, List.countP_cons, List.countP_cons, List.countP_cons]
    cases hmigrated : wake.migrated expectedAux <;> cases hrange : wake.inRange <;>
      simp [Wake.valid, Wake.invalid, hmigrated, hrange] <;> omega

/-- Every event is migrated, invalid, a valid one of the warm-up, or kept. -/
theorem length_recorded (expectedAux warmupEvents : ℕ) (recorded : List Wake) :
    recorded.length = warmupWakes expectedAux warmupEvents recorded +
      (keptWakes expectedAux warmupEvents recorded).length +
      recorded.countP (Wake.invalid expectedAux) + recorded.countP (Wake.migrated expectedAux) := by
  have hclasses := length_eq_classes expectedAux recorded
  have hvalid : recorded.countP (Wake.valid expectedAux) =
      warmupWakes expectedAux warmupEvents recorded +
        (keptWakes expectedAux warmupEvents recorded).length := by
    unfold warmupWakes keptWakes
    rw [← List.countP_eq_length_filter, ← List.countP_append, List.take_append_drop]
  omega

/-- The counters of a new waiter account for no events. -/
theorem accounts_new (expectedAux warmupEvents : ℕ) {maxSamples : ℕ} (hcap : 0 < maxSamples)
    (filtering : Filtering) :
    (Waiter.new filtering).Accounts expectedAux warmupEvents maxSamples where
  events := rfl
  kept := by
    rw [keptWakes_of_lt (Nat.zero_le _)]
    rfl
  migrated := rfl
  invalid := rfl
  withinCap := Nat.zero_le _
  limit := iff_of_false (fun h => nomatch h) hcap.ne
  stop := rfl

theorem i64TryFrom_latency (wake : Wake) :
    i64TryFrom ((wake.received.cycles : ℤ) - wake.sentCycles) =
      if wake.inRange = true then some wake.latency else none := by
  unfold i64TryFrom Wake.inRange Wake.latency
  simp only [Bool.and_eq_true, decide_eq_true_eq]

section Record

variable {expectedAux warmupEvents maxSamples : ℕ} {waiter : Waiter} {wake : Wake}

/-- The condition under which a sample is kept. -/
def Waiter.Keeps (expectedAux warmupEvents maxSamples : ℕ) (waiter : Waiter) (wake : Wake) : Prop :=
  wake.valid expectedAux = true ∧ warmupEvents ≤ waiter.events ∧
    waiter.metrics.latenciesCycles.length < maxSamples

instance : Decidable (waiter.Keeps expectedAux warmupEvents maxSamples wake) :=
  inferInstanceAs (Decidable (_ ∧ _ ∧ _))

theorem recordSample_of_migrated (h : wake.migrated expectedAux = true) :
    recordSample expectedAux warmupEvents maxSamples wake waiter =
      ⟨{ waiter.metrics with
          migratedSamples := saturatingAdd64 waiter.metrics.migratedSamples 1 },
        saturatingAdd64 waiter.events 1, waiter.stop, wake.generation,
        waiter.recorded ++ [wake]⟩ := by
  have hne : wake.received.auxiliary ≠ expectedAux := bne_iff_ne.mp h
  simp only [recordSample, hne, ne_eq, not_false_eq_true, if_true, Bool.or_false]

theorem recordSample_of_invalid (h : wake.invalid expectedAux = true) :
    recordSample expectedAux warmupEvents maxSamples wake waiter =
      ⟨{ waiter.metrics with
          invalidSamples := saturatingAdd64 waiter.metrics.invalidSamples 1 },
        saturatingAdd64 waiter.events 1, waiter.stop, wake.generation,
        waiter.recorded ++ [wake]⟩ := by
  rw [Wake.invalid, Bool.and_eq_true, Bool.not_eq_true', Bool.not_eq_true', Wake.migrated,
    bne_eq_false_iff_eq] at h
  simp only [recordSample, i64TryFrom_latency, h, ne_eq, not_true, if_false, Bool.false_eq_true,
    Bool.or_false]

theorem recordSample_of_valid (h : wake.valid expectedAux = true)
    (hkeeps : ¬ waiter.Keeps expectedAux warmupEvents maxSamples wake) :
    recordSample expectedAux warmupEvents maxSamples wake waiter =
      ⟨waiter.metrics, saturatingAdd64 waiter.events 1, waiter.stop, wake.generation,
        waiter.recorded ++ [wake]⟩ := by
  have hskip : ¬ (warmupEvents ≤ waiter.events ∧
      waiter.metrics.latenciesCycles.length < maxSamples) := fun hafter => hkeeps ⟨h, hafter⟩
  rw [Wake.valid, Bool.and_eq_true, Bool.not_eq_true', Wake.migrated, bne_eq_false_iff_eq] at h
  simp only [recordSample, i64TryFrom_latency, h, ne_eq, not_true, if_false, if_true, hskip,
    Bool.or_false]

theorem recordSample_of_keeps (h : waiter.Keeps expectedAux warmupEvents maxSamples wake) :
    recordSample expectedAux warmupEvents maxSamples wake waiter =
      ⟨(waiter.metrics.keep maxSamples wake.latency).1, saturatingAdd64 waiter.events 1,
        waiter.stop || (waiter.metrics.keep maxSamples wake.latency).2, wake.generation,
        waiter.recorded ++ [wake]⟩ := by
  obtain ⟨hvalid, hafter⟩ := h
  rw [Wake.valid, Bool.and_eq_true, Bool.not_eq_true', Wake.migrated, bne_eq_false_iff_eq]
    at hvalid
  simp only [recordSample, i64TryFrom_latency, hvalid, ne_eq, not_true, if_false, if_true, hafter,
    and_self]

theorem keep_full {metrics : WaiterMetrics} {rawCycles : ℤ}
    (h : (metrics.latenciesCycles ++ [rawCycles]).length = maxSamples) :
    metrics.keep maxSamples rawCycles =
      ({ metrics with
          latenciesCycles := metrics.latenciesCycles ++ [rawCycles]
          sampleLimitReached := true }, true) := by
  unfold WaiterMetrics.keep
  exact if_pos h

theorem keep_below {metrics : WaiterMetrics} {rawCycles : ℤ}
    (h : (metrics.latenciesCycles ++ [rawCycles]).length ≠ maxSamples) :
    metrics.keep maxSamples rawCycles =
      ({ metrics with latenciesCycles := metrics.latenciesCycles ++ [rawCycles] }, false) := by
  unfold WaiterMetrics.keep
  exact if_neg h

/-- An event is of one class. -/
theorem Wake.class_cases (expectedAux : ℕ) (wake : Wake) :
    (wake.migrated expectedAux = true ∧ wake.invalid expectedAux = false ∧
      wake.valid expectedAux = false) ∨
    (wake.migrated expectedAux = false ∧ wake.invalid expectedAux = true ∧
      wake.valid expectedAux = false) ∨
    (wake.migrated expectedAux = false ∧ wake.invalid expectedAux = false ∧
      wake.valid expectedAux = true) := by
  unfold Wake.invalid Wake.valid
  cases wake.migrated expectedAux <;> cases wake.inRange <;> decide

theorem countP_concat (p : Wake → Bool) (recorded : List Wake) (wake : Wake) :
    (recorded ++ [wake]).countP p = recorded.countP p + if p wake = true then 1 else 0 := by
  rw [List.countP_append, List.countP_singleton]

/-- The events that are kept grow by one that is valid and comes after the warm-up. -/
theorem keptWakes_concat (recorded : List Wake) :
    keptWakes expectedAux warmupEvents (recorded ++ [wake]) =
      keptWakes expectedAux warmupEvents recorded ++
        if wake.valid expectedAux = true ∧ warmupEvents ≤ recorded.length then [wake] else [] := by
  rcases Nat.lt_or_ge recorded.length warmupEvents with hlt | hle
  · have hlong : (recorded ++ [wake]).length ≤ warmupEvents := by
      rw [List.length_append, List.length_singleton]
      exact hlt
    rw [keptWakes_of_lt hlt.le, keptWakes_of_lt hlong, if_neg (fun h => absurd h.2 (by omega))]
    rfl
  · unfold keptWakes
    rw [List.drop_append_of_le_length hle, List.filter_append, List.filter_singleton]
    cases wake.valid expectedAux with
    | false => simp only [Bool.false_eq_true, false_and, if_false, cond_false]
    | true => simp only [hle, and_self, if_true, cond_true]

theorem Waiter.Accounts.warmedUp (h : waiter.Accounts expectedAux warmupEvents maxSamples)
    (hwarmup : warmupEvents ≤ u64Max) :
    warmupEvents ≤ waiter.events ↔ warmupEvents ≤ waiter.recorded.length := by
  rw [h.events, le_min_iff]
  exact and_iff_left hwarmup

theorem Waiter.Accounts.below (h : waiter.Accounts expectedAux warmupEvents maxSamples)
    (hrunning : waiter.stop = false) : waiter.metrics.latenciesCycles.length < maxSamples := by
  have hlimit := h.limit
  rw [← h.stop, hrunning] at hlimit
  have hne : waiter.metrics.latenciesCycles.length ≠ maxSamples :=
    fun heq => nomatch hlimit.mpr heq
  exact lt_of_le_of_ne h.withinCap hne

/-- Recording one more event keeps the accounts, unless the cap has been reached before. -/
theorem Waiter.Accounts.record (h : waiter.Accounts expectedAux warmupEvents maxSamples)
    (hwarmup : warmupEvents ≤ u64Max) (hrunning : waiter.stop = false) (wake : Wake) :
    (recordSample expectedAux warmupEvents maxSamples wake waiter).Accounts expectedAux
      warmupEvents maxSamples := by
  have hbelow := h.below hrunning
  have hwarm := h.warmedUp hwarmup
  have hevents : saturatingAdd64 waiter.events 1 =
      min (waiter.recorded ++ [wake]).length u64Max := by
    rw [h.events, saturatingAdd64_min, List.length_append, List.length_singleton]
  -- What a wake of another class leaves as it was.
  have hmigrated (hm : wake.migrated expectedAux = false) : waiter.metrics.migratedSamples =
      min ((waiter.recorded ++ [wake]).countP (Wake.migrated expectedAux)) u64Max := by
    simpa [countP_concat, hm] using h.migrated
  have hinvalid (hi : wake.invalid expectedAux = false) : waiter.metrics.invalidSamples =
      min ((waiter.recorded ++ [wake]).countP (Wake.invalid expectedAux)) u64Max := by
    simpa [countP_concat, hi] using h.invalid
  have hkept (hv : ¬ (wake.valid expectedAux = true ∧ warmupEvents ≤ waiter.recorded.length)) :
      waiter.metrics.latenciesCycles =
        (keptWakes expectedAux warmupEvents (waiter.recorded ++ [wake])).map Wake.latency := by
    rw [keptWakes_concat, if_neg hv, List.append_nil]
    exact h.kept
  rcases wake.class_cases expectedAux with ⟨hm, hi, hv⟩ | ⟨hm, hi, hv⟩ | ⟨hm, hi, hv⟩
  · have hskipped := hkept fun hvalid => Bool.false_ne_true (hv.symm.trans hvalid.1)
    rw [recordSample_of_migrated hm]
    refine ⟨hevents, hskipped, ?_, hinvalid hi, h.withinCap, h.limit, h.stop⟩
    simp only [countP_concat, hm, if_true, h.migrated, saturatingAdd64_min]
  · have hskipped := hkept fun hvalid => Bool.false_ne_true (hv.symm.trans hvalid.1)
    rw [recordSample_of_invalid hi]
    refine ⟨hevents, hskipped, hmigrated hm, ?_, h.withinCap, h.limit, h.stop⟩
    simp only [countP_concat, hi, if_true, h.invalid, saturatingAdd64_min]
  · by_cases hkeeps : waiter.Keeps expectedAux warmupEvents maxSamples wake
    · have hafter := hwarm.mp hkeeps.2.1
      have hlonger : waiter.metrics.latenciesCycles ++ [wake.latency] =
          (keptWakes expectedAux warmupEvents (waiter.recorded ++ [wake])).map Wake.latency := by
        rw [keptWakes_concat, if_pos ⟨hv, hafter⟩, List.map_append, h.kept, List.map_singleton]
      rw [recordSample_of_keeps hkeeps]
      by_cases hcap : (waiter.metrics.latenciesCycles ++ [wake.latency]).length = maxSamples
      · rw [keep_full hcap]
        exact ⟨hevents, hlonger, hmigrated hm, hinvalid hi, hcap.le, iff_of_true rfl hcap,
          Bool.or_true _⟩
      · have hwithin : (waiter.metrics.latenciesCycles ++ [wake.latency]).length ≤ maxSamples := by
          rw [List.length_append, List.length_singleton]
          exact hbelow
        have hunset : waiter.metrics.sampleLimitReached ≠ true := by
          rw [← h.stop, hrunning]
          exact Bool.false_ne_true
        rw [keep_below hcap]
        refine ⟨hevents, hlonger, hmigrated hm, hinvalid hi, hwithin,
          iff_of_false hunset hcap, ?_⟩
        rw [Bool.or_false]
        exact h.stop
    · have hbefore : ¬ warmupEvents ≤ waiter.recorded.length :=
        fun hafter => hkeeps ⟨hv, hwarm.mpr hafter, hbelow⟩
      rw [recordSample_of_valid hv hkeeps]
      exact ⟨hevents, hkept fun hvalid => hbefore hvalid.2, hmigrated hm, hinvalid hi,
        h.withinCap, h.limit, h.stop⟩

theorem Waiter.Accounts.countUnclassified
    (h : waiter.Accounts expectedAux warmupEvents maxSamples) (wake : Wake) :
    (waiter.countUnclassified wake).Accounts expectedAux warmupEvents maxSamples :=
  ⟨h.events, h.kept, h.migrated, h.invalid, h.withinCap, h.limit, h.stop⟩

theorem recordSample_recorded :
    (recordSample expectedAux warmupEvents maxSamples wake waiter).recorded =
      waiter.recorded ++ [wake] := rfl

/-- The accounts hold when the loop ends, and it has recorded each wake up to then. -/
theorem waiterLoop_accounts (hwarmup : warmupEvents ≤ u64Max) {wakes : List Wake} {final : Waiter}
    (h : waiter.Accounts expectedAux warmupEvents maxSamples)
    (hrun : waiterLoop expectedAux warmupEvents maxSamples wakes waiter = some final) :
    final.Accounts expectedAux warmupEvents maxSamples ∧
      ∃ last rest, waiter.recorded ++ wakes = final.recorded ++ last :: rest ∧
        (final.stop = true ∨ last.stopped = true) := by
  induction wakes generalizing waiter with
  | nil => cases hrun
  | cons wake wakes ih =>
    have hcounted := h.countUnclassified wake
    rw [waiterLoop] at hrun
    by_cases hstop : (waiter.countUnclassified wake).stop = true ∨ wake.stopped = true
    · rw [if_pos ((Bool.or_eq_true _ _).mpr hstop)] at hrun
      rw [← Option.some.inj hrun]
      exact ⟨hcounted, wake, wakes, rfl, hstop⟩
    · rw [if_neg (fun hor => hstop ((Bool.or_eq_true _ _).mp hor))] at hrun
      have hrunning : (waiter.countUnclassified wake).stop = false :=
        Bool.eq_false_iff.mpr fun hset => hstop (Or.inl hset)
      obtain ⟨hfinal, last, rest, hsplit, hlast⟩ := ih (hcounted.record hwarmup hrunning wake) hrun
      refine ⟨hfinal, last, rest, ?_, hlast⟩
      rw [← hsplit, recordSample_recorded, List.append_assoc]
      rfl

end Record

/-- Within `i64` the corrected value is in the range of `u64` exactly when it is not negative. -/
theorem correctLatency_eq {rawCycles correctionCycles : ℤ} (hraw : rawCycles < 2 ^ 63)
    (hcorrection : -2 ^ 63 ≤ correctionCycles) :
    correctLatency rawCycles correctionCycles =
      if 0 ≤ rawCycles - correctionCycles then
        some (rawCycles - correctionCycles).toNat else none := by
  have hbelow : rawCycles - correctionCycles < 2 ^ 64 := by omega
  unfold correctLatency u64TryFrom
  simp only [hbelow, and_true]

/-- The corrected samples are the non-negative ones of the kept latencies, less the correction. -/
theorem correctSamples_eq {correctionCycles : ℤ} (hcorrection : -2 ^ 63 ≤ correctionCycles)
    {latenciesCycles : List ℤ} (hraw : ∀ rawCycles ∈ latenciesCycles, rawCycles < 2 ^ 63)
    (invalid : ℕ) :
    (correctSamples correctionCycles latenciesCycles (min invalid u64Max)).1.map Int.ofNat =
        (latenciesCycles.map (· - correctionCycles)).filter (0 ≤ ·) ∧
      (correctSamples correctionCycles latenciesCycles (min invalid u64Max)).2 =
        min (invalid + latenciesCycles.countP (· < correctionCycles)) u64Max := by
  induction latenciesCycles generalizing invalid with
  | nil => exact ⟨rfl, rfl⟩
  | cons rawCycles rest ih =>
    rw [List.forall_mem_cons] at hraw
    rw [correctSamples, correctLatency_eq hraw.1 hcorrection, List.map_cons, List.countP_cons]
    by_cases hnegative : 0 ≤ rawCycles - correctionCycles
    · have hnot : ¬ rawCycles < correctionCycles := by omega
      obtain ⟨hsamples, hinvalid⟩ := ih hraw.2 invalid
      rw [if_pos hnegative]
      constructor
      · simp only [List.map_cons, hsamples, hnegative, decide_true, List.filter_cons_of_pos,
          Int.ofNat_eq_natCast, Int.toNat_of_nonneg]
      · simpa only [hnot, decide_false, Bool.false_eq_true, if_false, Nat.add_zero] using hinvalid
    · have hless : rawCycles < correctionCycles := by omega
      obtain ⟨hsamples, hinvalid⟩ := ih hraw.2 (invalid + 1)
      rw [if_neg hnegative]
      simp only [saturatingAdd64_min, hsamples, hinvalid, hnegative, hless, decide_true,
        decide_false, Bool.false_eq_true, not_false_eq_true, List.filter_cons_of_neg, if_true,
        true_and]
      omega

section Corrected

variable {F : Type} {f64 : F64 F} {repetition : ℕ} {controlFirst : Bool} {control : VictimMetrics}
  {contender : ContenderTrial} {clock : TscClock F} {correctionCycles : ℤ}

/-- What a result says of the samples, whatever it says of the rest. -/
theorem new_eq_ok {result : RepetitionResult F}
    (h : RepetitionResult.new f64 repetition controlFirst control contender clock
      correctionCycles = .ok result) :
    (result.rawLatencyCycles, result.invalidSamples) = correctSamples correctionCycles
      contender.waiter.latenciesCycles contender.waiter.invalidSamples ∧
    result.samples = result.rawLatencyCycles.length ∧
    result.migratedSamples = contender.waiter.migratedSamples ∧
    result.sampleLimitReached = contender.waiter.sampleLimitReached := by
  unfold RepetitionResult.new at h
  obtain ⟨-, h⟩ := guard_eq_ok.mp h
  obtain ⟨maxCycles, -, h⟩ := bind_eq_ok.mp h
  obtain ⟨-, h⟩ := guard_eq_ok.mp h
  obtain ⟨percent, -, h⟩ := bind_eq_ok.mp h
  have hresult := pure_eq_ok.mp h
  rw [hresult]
  exact ⟨rfl, List.length_mergeSort _, rfl, rfl⟩

/-- Every kept latency is corrected or becomes negative. -/
theorem length_corrected (latenciesCycles : List ℤ) (correctionCycles : ℤ) :
    latenciesCycles.length =
      ((latenciesCycles.map (· - correctionCycles)).filter (0 ≤ ·)).length +
        latenciesCycles.countP (· < correctionCycles) := by
  induction latenciesCycles with
  | nil => rfl
  | cons rawCycles rest ih =>
    rw [List.length_cons, List.map_cons, List.countP_cons, ih]
    by_cases h : rawCycles < correctionCycles
    · have hnegative : ¬ 0 ≤ rawCycles - correctionCycles := by omega
      simp only [List.filter_cons, h, hnegative, decide_true, decide_false, if_true,
        Bool.false_eq_true, if_false]
      omega
    · have hnonneg : 0 ≤ rawCycles - correctionCycles := by omega
      simp only [List.filter_cons, h, hnonneg, decide_true, decide_false, if_true,
        Bool.false_eq_true, if_false, List.length_cons]
      omega

theorem latency_lt_of_mem_keptWakes {expectedAux warmupEvents : ℕ} {recorded : List Wake}
    {rawCycles : ℤ}
    (h : rawCycles ∈ (keptWakes expectedAux warmupEvents recorded).map Wake.latency) :
    rawCycles < 2 ^ 63 := by
  obtain ⟨wake, hwake, rfl⟩ := List.mem_map.mp h
  have hvalid := (List.mem_filter.mp hwake).2
  rw [Wake.valid, Bool.and_eq_true, Wake.inRange, Bool.and_eq_true] at hvalid
  exact of_decide_eq_true hvalid.2.2

/-- What the correction leaves of the kept samples. -/
def correctedLatencies (expectedAux warmupEvents : ℕ) (recorded : List Wake)
    (correctionCycles : ℤ) : List ℤ :=
  ((keptWakes expectedAux warmupEvents recorded).map fun wake =>
    wake.latency - correctionCycles).filter (0 ≤ ·)

/-- The events that the result has to count as invalid. -/
def invalidWakes (expectedAux warmupEvents : ℕ) (recorded : List Wake) (correctionCycles : ℤ) : ℕ :=
  recorded.countP (Wake.invalid expectedAux) +
    (keptWakes expectedAux warmupEvents recorded).countP (·.latency < correctionCycles)

/-- The accounts of the waiter, carried over to the result of a repetition. -/
theorem Waiter.Accounts.result {expectedAux warmupEvents maxSamples : ℕ} {waiter : Waiter}
    (h : waiter.Accounts expectedAux warmupEvents maxSamples) {victim : VictimMetrics}
    (hcorrection : -2 ^ 63 ≤ correctionCycles) {result : RepetitionResult F}
    (hresult : RepetitionResult.new f64 repetition controlFirst control
      ⟨waiter.metrics, victim⟩ clock correctionCycles = .ok result) :
    result.rawLatencyCycles.map Int.ofNat =
        correctedLatencies expectedAux warmupEvents waiter.recorded correctionCycles ∧
      result.samples = result.rawLatencyCycles.length ∧
      result.invalidSamples =
        min (invalidWakes expectedAux warmupEvents waiter.recorded correctionCycles) u64Max ∧
      result.migratedSamples = min (waiter.recorded.countP (Wake.migrated expectedAux)) u64Max := by
  obtain ⟨hcorrected, hsamples, hmigrated, -⟩ := new_eq_ok hresult
  dsimp only at hcorrected hmigrated
  rw [h.kept, h.invalid] at hcorrected
  obtain ⟨hraw, hinvalid⟩ := correctSamples_eq hcorrection
    (fun rawCycles hmem => latency_lt_of_mem_keptWakes hmem)
    (waiter.recorded.countP (Wake.invalid expectedAux))
  rw [← hcorrected, List.map_map] at hraw
  rw [← hcorrected, List.countP_map] at hinvalid
  exact ⟨hraw, hsamples, hinvalid, hmigrated.trans h.migrated⟩

/-- The classes that a result reports add up, if no counter has reached its maximum. -/
theorem length_recorded_result {expectedAux warmupEvents : ℕ} {recorded : List Wake}
    {result : RepetitionResult F}
    (hraw : result.rawLatencyCycles.map Int.ofNat =
      correctedLatencies expectedAux warmupEvents recorded correctionCycles)
    (hsamples : result.samples = result.rawLatencyCycles.length) :
    recorded.length = warmupWakes expectedAux warmupEvents recorded + result.samples +
      invalidWakes expectedAux warmupEvents recorded correctionCycles +
      recorded.countP (Wake.migrated expectedAux) := by
  have hclasses := length_recorded expectedAux warmupEvents recorded
  have hkept := length_corrected ((keptWakes expectedAux warmupEvents recorded).map Wake.latency)
    correctionCycles
  have hlength := congrArg List.length hraw
  rw [List.length_map, List.map_map, List.countP_map] at hkept
  rw [List.length_map, ← hsamples] at hlength
  unfold correctedLatencies at hlength
  unfold invalidWakes
  simp only [Function.comp_def] at hkept
  omega

end Corrected

/-- A trial whose cap is reached has no result. -/
theorem concludeTrial_of_limit {driveResult producerResult : Except String Unit}
    {waiter : WaiterMetrics} {victimResult : Except String VictimMetrics} {maxSamples : ℕ}
    (h : waiter.sampleLimitReached = true) (trial : ContenderTrial) :
    concludeTrial driveResult (.ok waiter) producerResult victimResult maxSamples ≠ .ok trial := by
  intro htrial
  unfold concludeTrial at htrial
  obtain ⟨_, -, htrial⟩ := bind_eq_ok.mp htrial
  obtain ⟨metrics, hmetrics, htrial⟩ := bind_eq_ok.mp htrial
  obtain ⟨_, -, htrial⟩ := bind_eq_ok.mp htrial
  obtain ⟨_, -, htrial⟩ := bind_eq_ok.mp htrial
  obtain ⟨_, hvalid, -⟩ := bind_eq_ok.mp htrial
  have hsame : metrics = waiter := (Except.ok.inj (mapError_eq_ok.mp hmetrics)).symm
  have hunlimited := (guard_eq_ok.mp (mapError_eq_ok.mp hvalid)).1
  rw [hsame] at hunlimited
  exact hunlimited h

/-- `f64` on values that it represents exactly. -/
def exactF64 : F64 ℚ where
  ofNat n := n
  literal q := q
  asSecs nanoseconds := nanoseconds / 10 ^ 9
  sub := (· - ·)
  mul := (· * ·)
  div := (· / ·)
  le a b := a ≤ b
  isFinite _ := true
  ceil q := q.ceil
  round q := (q + 1 / 2).floor
  toU64 q := min q.floor.toNat u64Max

/-- A result is made of any samples, as long as the figures are finite. -/
theorem new_isOk {F : Type} {f64 : F64 F} {repetition : ℕ} {controlFirst : Bool}
    {control : VictimMetrics} {contender : ContenderTrial} {clock : TscClock F}
    {correctionCycles : ℤ}
    (hsamples : (correctSamples correctionCycles contender.waiter.latenciesCycles
      contender.waiter.invalidSamples).1 ≠ [])
    (hfinite : f64.isFinite (control.throughputMops f64) = true)
    (hpositive : f64.le (control.throughputMops f64) (f64.literal 0) = false)
    (hbaseline : control.p99ChunkNs ≠ 0) :
    ∃ result, RepetitionResult.new f64 repetition controlFirst control contender clock
      correctionCycles = .ok result := by
  have hsorted : (correctSamples correctionCycles contender.waiter.latenciesCycles
      contender.waiter.invalidSamples).1.mergeSort ≠ [] := by
    rw [← List.length_pos_iff, List.length_mergeSort]
    exact List.length_pos_iff.mpr hsamples
  have hmax := List.getLast?_eq_some_getLast hsorted
  have hnonempty : (correctSamples correctionCycles contender.waiter.latenciesCycles
      contender.waiter.invalidSamples).1.isEmpty = false :=
    List.isEmpty_eq_false_iff.mpr hsamples
  unfold RepetitionResult.new percentChange
  simp only [hnonempty, hmax, hfinite, hpositive, hbaseline, Bool.true_eq_false,
    Bool.false_eq_true, or_self, if_false, Option.elim_some]
  exact ⟨_, rfl⟩

/-- Any number of migrated events between the first sample and the end. -/
theorem waiterLoop_replicate (expectedAux warmupEvents maxSamples : ℕ) {wake last : Wake}
    (hmigrated : wake.migrated expectedAux = true) (hunstopped : wake.stopped = false)
    (hlast : last.stopped = true) (n : ℕ) (waiter : Waiter) (hrunning : waiter.stop = false) :
    ∃ final, waiterLoop expectedAux warmupEvents maxSamples (List.replicate n wake ++ [last])
        waiter = some final ∧
      final.recorded = waiter.recorded ++ List.replicate n wake ∧
      final.metrics.latenciesCycles = waiter.metrics.latenciesCycles := by
  induction n generalizing waiter with
  | zero =>
    refine ⟨waiter.countUnclassified last, ?_, (List.append_nil _).symm, rfl⟩
    rw [List.replicate_zero, List.nil_append, waiterLoop, hlast, Bool.or_true, if_pos rfl]
  | succ n ih =>
    have hcounted : (waiter.countUnclassified wake).stop = false := hrunning
    obtain ⟨final, hfinal, hrecorded, hkept⟩ := ih (recordSample expectedAux warmupEvents
      maxSamples wake (waiter.countUnclassified wake)) (by
        rw [recordSample_of_migrated hmigrated]
        exact hrunning)
    rw [recordSample_of_migrated hmigrated] at hkept
    refine ⟨final, ?_, ?_, hkept⟩
    · rw [List.replicate_succ, List.cons_append, waiterLoop, hcounted, hunstopped, Bool.or_false,
        if_neg Bool.false_ne_true]
      exact hfinal
    · rw [hrecorded, recordSample_recorded, List.append_assoc, List.replicate_succ]
      rfl

/-- One sample, `n` events on another processor, and the end. -/
def migratedWakes (n : ℕ) : List Wake :=
  ⟨0, 1, false, ⟨20, 0⟩, 10⟩ ::
    (List.replicate n ⟨0, 2, false, ⟨20, 1⟩, 10⟩ ++ [⟨0, 3, true, ⟨20, 0⟩, 10⟩])

/-- The sample's waiter ends with one latency and counts every later wake as migrated. -/
theorem migratedWakes_result (n : ℕ) : ∃ final result,
    waiterLoop 0 0 2 (migratedWakes n) (.new .raw) = some final ∧
    RepetitionResult.new exactF64 0 false ⟨1000000, 10 ^ 9, 100⟩
      ⟨final.metrics, ⟨1000000, 10 ^ 9, 100⟩⟩ ⟨1, 0⟩ 0 = .ok result ∧
    final.recorded = ⟨0, 1, false, ⟨20, 0⟩, 10⟩ :: List.replicate n ⟨0, 2, false, ⟨20, 1⟩, 10⟩ := by
  have hmigrated : Wake.migrated 0 ⟨0, 2, false, ⟨20, 1⟩, 10⟩ = true := rfl
  obtain ⟨final, hrun, hrecorded, hkept⟩ := waiterLoop_replicate 0 0 2 hmigrated rfl
    (show (Wake.mk 0 3 true ⟨20, 0⟩ 10).stopped = true from rfl) n
    (recordSample 0 0 2 ⟨0, 1, false, ⟨20, 0⟩, 10⟩ (.new .raw)) rfl
  have hsamples : (correctSamples 0 final.metrics.latenciesCycles
      final.metrics.invalidSamples).1 ≠ [] := by
    rw [hkept]
    exact List.cons_ne_nil 10 []
  have hnew : ∃ result, RepetitionResult.new exactF64 0 false ⟨1000000, 10 ^ 9, 100⟩
      ⟨final.metrics, ⟨1000000, 10 ^ 9, 100⟩⟩ ⟨1, 0⟩ 0 = .ok result :=
    new_isOk hsamples rfl (by decide +kernel) (by decide)
  obtain ⟨result, hresult⟩ := hnew
  exact ⟨final, result, hrun, hresult, hrecorded⟩

/-- Whatever the wakes, each event that is recorded is accounted for, as long as neither of the two
counters has to go beyond its maximum. -/
theorem latency_events_accounted {F : Type} (f64 : F64 F)
    {expectedAux warmupEvents maxSamples : ℕ} (hwarmup : warmupEvents ≤ u64Max)
    (hcap : 0 < maxSamples) (filtering : Filtering) {wakes : List Wake} {final : Waiter}
    (hrun : waiterLoop expectedAux warmupEvents maxSamples wakes (.new filtering) = some final) :
    (∃ last rest, wakes = final.recorded ++ last :: rest ∧
      (final.metrics.sampleLimitReached = true ∨ last.stopped = true)) ∧
    final.metrics.latenciesCycles.length ≤ maxSamples ∧
    (final.metrics.sampleLimitReached = true ↔
      final.metrics.latenciesCycles.length = maxSamples) ∧
    (final.metrics.sampleLimitReached = true →
      validateSampleSet final.metrics.sampleLimitReached final.metrics.latenciesCycles.length
        maxSamples = .error (.sampleCapExhausted maxSamples) ∧
      ∀ driveResult producerResult victimResult trial, concludeTrial driveResult
        (.ok final.metrics) producerResult victimResult maxSamples ≠ .ok trial) ∧
    ∀ (repetition : ℕ) (controlFirst : Bool) (control victim : VictimMetrics) (clock : TscClock F)
      (correctionCycles : ℤ) (result : RepetitionResult F), -2 ^ 63 ≤ correctionCycles →
      RepetitionResult.new f64 repetition controlFirst control ⟨final.metrics, victim⟩ clock
        correctionCycles = .ok result →
      result.rawLatencyCycles.map Int.ofNat =
        correctedLatencies expectedAux warmupEvents final.recorded correctionCycles ∧
      result.samples = result.rawLatencyCycles.length ∧
      (final.recorded.length = warmupWakes expectedAux warmupEvents final.recorded +
          result.samples + result.invalidSamples + result.migratedSamples ↔
        invalidWakes expectedAux warmupEvents final.recorded correctionCycles ≤ u64Max ∧
          final.recorded.countP (Wake.migrated expectedAux) ≤ u64Max) := by
  obtain ⟨haccounts, last, rest, hsplit, hlast⟩ :=
    waiterLoop_accounts hwarmup (accounts_new expectedAux warmupEvents hcap filtering) hrun
  rw [haccounts.stop] at hlast
  refine ⟨⟨last, rest, hsplit, hlast⟩, haccounts.withinCap, haccounts.limit, fun hlimit => ?_, ?_⟩
  · refine ⟨?_, fun _ _ _ trial => concludeTrial_of_limit hlimit trial⟩
    rw [hlimit]
    rfl
  · intro repetition controlFirst control victim clock correctionCycles result hcorrection hresult
    obtain ⟨hraw, hsamples, hinvalid, hmigrated⟩ := haccounts.result hcorrection hresult
    have hlength := length_recorded_result hraw hsamples
    refine ⟨hraw, hsamples, ?_⟩
    rw [hinvalid, hmigrated]
    omega

/-- One sample and three migrated events. -/
theorem latency_events_accounted_sample : ∃ final result,
    waiterLoop 0 0 2 (migratedWakes 3) (.new .raw) = some final ∧
    RepetitionResult.new exactF64 0 false ⟨1000000, 10 ^ 9, 100⟩
      ⟨final.metrics, ⟨1000000, 10 ^ 9, 100⟩⟩ ⟨1, 0⟩ 0 = .ok result ∧
    final.recorded.length = 4 ∧
    final.recorded.length = warmupWakes 0 0 final.recorded + result.samples +
      result.invalidSamples + result.migratedSamples := by
  obtain ⟨final, result, hrun, hresult, hrecorded⟩ := migratedWakes_result 3
  have haccounted := (latency_events_accounted exactF64 (Nat.zero_le _) (by decide) .raw
    hrun).2.2.2.2 0 false _ _ _ 0 result (by decide) hresult
  refine ⟨final, result, hrun, hresult, by rw [hrecorded]; rfl, haccounted.2.2.mpr ?_⟩
  rw [hrecorded]
  decide

/-- With a counter that has to go beyond its maximum the classes do not add up to the events. -/
theorem latency_events_saturate : ∃ wakes final result,
    waiterLoop 0 0 2 wakes (.new .raw) = some final ∧
    RepetitionResult.new exactF64 0 false ⟨1000000, 10 ^ 9, 100⟩
      ⟨final.metrics, ⟨1000000, 10 ^ 9, 100⟩⟩ ⟨1, 0⟩ 0 = .ok result ∧
    final.recorded.length ≠ warmupWakes 0 0 final.recorded + result.samples +
      result.invalidSamples + result.migratedSamples := by
  obtain ⟨final, result, hrun, hresult, hrecorded⟩ := migratedWakes_result (2 ^ 64)
  refine ⟨_, final, result, hrun, hresult, ?_⟩
  have haccounts := (waiterLoop_accounts (Nat.zero_le _) (accounts_new 0 0 (by decide) .raw) hrun).1
  obtain ⟨hraw, hsamples, hinvalid, hmigrated⟩ := haccounts.result (by decide) hresult
  have hlength := length_recorded_result hraw hsamples
  have hcount : final.recorded.countP (Wake.migrated 0) = 2 ^ 64 := by
    rw [hrecorded, List.countP_cons, List.countP_replicate]
    rfl
  rw [hinvalid, hmigrated, hcount]
  rw [hcount] at hlength
  unfold u64Max
  omega

end Snoozer.WakeLatency
