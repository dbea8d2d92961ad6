import Snoozer.DecimalLiteral
import Snoozer.Results
import Mathlib.Algebra.Group.Nat.Defs
import Mathlib.Logic.Function.Basic

/-! The command line of the benchmark, `Arguments::parse` of `benches/wake_latency.rs`. -/
namespace Snoozer.WakeLatency
open Results

inductive Mode where
  | smoke | official
  deriving DecidableEq, Repr

/-- The options that take a number, `u64` or `usize`. -/
inductive NumberOption where
  | durationMs | repetitions | warmupEvents | maxSamples
  | waiterCpu | victimCpu | producerCpu | controllerCpu
  deriving DecidableEq, Repr

def NumberOption.name : NumberOption → String
  | durationMs => "--duration-ms"
  | repetitions => "--repetitions"
  | warmupEvents => "--warmup-events"
  | maxSamples => "--max-samples"
  | waiterCpu => "--waiter-cpu"
  | victimCpu => "--victim-cpu"
  | producerCpu => "--producer-cpu"
  | controllerCpu => "--controller-cpu"

/-- Durations are nanoseconds. -/
structure Arguments where
  mode : Mode
  trialDuration : ℕ
  repetitions : ℕ
  warmupEvents : ℕ
  maxSamples : ℕ
  waiterCpu : Option ℕ
  victimCpu : Option ℕ
  producerCpu : Option ℕ
  controllerCpu : Option ℕ
  output : String
  caseFilter : Option String
  preflightOnly : Bool
  deriving DecidableEq, Repr

/-- The variables of `parse`. -/
structure Slots where
  mode : Option Mode
  number : NumberOption → Option ℕ
  output : String
  caseFilter : Option String
  preflightOnly : Bool

def Slots.initial : Slots := ⟨none, fun _ => none, "target/snoozer-bench/results.jsonl", none, false⟩

/-- How `parse` ends without arguments; `help` leaves the process with success. -/
inductive ParseStop where
  | help
  | error (text : String)
  deriving DecidableEq, Repr

inductive Flag where
  | bench
  | mode (mode : Mode)
  | number (option : NumberOption)
  | output | case | preflightOnly | help
  deriving DecidableEq, Repr

def flags : List (String × Flag) :=
  [("--bench", .bench), ("--smoke", .mode .smoke), ("--official", .mode .official),
    ("--duration-ms", .number .durationMs), ("--repetitions", .number .repetitions),
    ("--warmup-events", .number .warmupEvents), ("--max-samples", .number .maxSamples),
    ("--waiter-cpu", .number .waiterCpu), ("--victim-cpu", .number .victimCpu),
    ("--producer-cpu", .number .producerCpu), ("--controller-cpu", .number .controllerCpu),
    ("--output", .output), ("--case", .case), ("--preflight-only", .preflightOnly),
    ("--help", .help), ("-h", .help)]

def setOnce {α : Type} (slot : Option α) (value : α) (name : String) :
    Except ParseStop (Option α) :=
  if slot.isSome then .error (.error s!"{name} may be specified only once") else .ok (some value)

def wordMax : ℕ := 2 ^ 64 - 1

def parseNumber (text : String) : Except ParseStop ℕ :=
  (Decimal.fromStr wordMax text.toList).mapError fun error => .error error.display

/-- The loop over the arguments. -/
def readArguments (slots : Slots) : List String → Except ParseStop Slots
  | [] => .ok slots
  | argument :: rest =>
    match flags.lookup argument with
    | none => .error (.error s!"unknown argument: {argument}")
    | some .help => .error .help
    | some .bench => readArguments slots rest
    | some (.mode mode) =>
      (setOnce slots.mode mode "--smoke/--official").bind fun mode =>
        readArguments { slots with mode } rest
    | some .preflightOnly => readArguments { slots with preflightOnly := true } rest
    | some (.number option) =>
      match rest with
      | [] => .error (.error s!"{argument} requires a value")
      | text :: rest =>
        (parseNumber text).bind fun value =>
          (setOnce (slots.number option) value option.name).bind fun value =>
            readArguments { slots with number := Function.update slots.number option value } rest
    | some .output =>
      match rest with
      | [] => .error (.error s!"{argument} requires a value")
      | path :: rest => readArguments { slots with output := path } rest
    | some .case =>
      match rest with
      | [] => .error (.error s!"{argument} requires a value")
      | name :: rest => readArguments { slots with caseFilter := some name } rest

/-- The values where an option is not given. -/
def defaultNumber (mode : Mode) : NumberOption → ℕ
  | .durationMs => match mode with | .smoke => 40 | .official => 250
  | .repetitions => match mode with | .smoke => 1 | .official => 7
  | .warmupEvents => match mode with | .smoke => 128 | .official => 1024
  | .maxSamples => match mode with | .smoke => 2000000 | .official => 5000000
  | _ => 0

def Slots.chosenMode (slots : Slots) : Mode := slots.mode.getD .smoke

def Slots.chosen (slots : Slots) (option : NumberOption) : ℕ :=
  (slots.number option).getD (defaultNumber slots.chosenMode option)

def Slots.roleCount (slots : Slots) : ℕ :=
  [slots.number .waiterCpu, slots.number .victimCpu, slots.number .producerCpu,
    slots.number .controllerCpu].countP Option.isSome

/-- The arguments that the loop has found, with the defaults. -/
def Slots.settled (slots : Slots) : Arguments where
  mode := slots.chosenMode
  trialDuration := slots.chosen .durationMs * 1000000
  repetitions := slots.chosen .repetitions
  warmupEvents := slots.chosen .warmupEvents
  maxSamples := slots.chosen .maxSamples
  waiterCpu := slots.number .waiterCpu
  victimCpu := slots.number .victimCpu
  producerCpu := slots.number .producerCpu
  controllerCpu := slots.number .controllerCpu
  output := slots.output
  caseFilter := slots.caseFilter
  preflightOnly := slots.preflightOnly

/-- The checks after the loop. -/
def Slots.arguments (slots : Slots) : Except ParseStop Arguments :=
  if slots.chosen .durationMs = 0 ∨ slots.chosen .repetitions = 0 ∨ slots.chosen .maxSamples = 0 then
    .error (.error "duration, repetitions, and max samples must be positive")
  else if slots.chosenMode = .official ∧ (slots.chosen .durationMs < 250 ∨
      slots.chosen .repetitions < 7 ∨ slots.chosen .warmupEvents < 1000 ∨
      slots.chosen .maxSamples < 10000) then
    .error (.error ("official mode requires duration>=250ms, repetitions>=7, " ++
      "warmup-events>=1000, and max-samples>=10000"))
  else if slots.chosenMode = .official ∧ slots.caseFilter.isSome then
    .error (.error ("--case is available only for non-official smoke runs; " ++
      "official mode always measures the complete matrix"))
  else if slots.roleCount ≠ 0 ∧ slots.roleCount ≠ 4 then
    .error (.error "CPU roles must be omitted together or supplied as a complete set")
  else
    .ok slots.settled

/-- `args` are the arguments after the program's name. -/
def Arguments.parse (args : List String) : Except ParseStop Arguments :=
  (readArguments .initial args).bind Slots.arguments

def Arguments.cpuOverrides (arguments : Arguments) : Option (ℕ × ℕ × ℕ × ℕ) := do
  return (← arguments.waiterCpu, ← arguments.victimCpu, ← arguments.producerCpu,
    ← arguments.controllerCpu)

inductive Token where
  | bench
  | mode (mode : Mode)
  | number (option : NumberOption) (value : ℕ)
  | output (path : String)
  | case (name : String)
  | preflightOnly
  deriving DecidableEq, Repr

def Mode.flag : Mode → String
  | smoke => "--smoke"
  | official => "--official"

/-- The words that say it. -/
def Token.Spelled : Token → List String → Prop
  | bench, words => words = ["--bench"]
  | mode value, words => words = [value.flag]
  | number option value, words =>
    ∃ text : String, Decimal.Literal wordMax text.toList value ∧ words = [option.name, text]
  | output path, words => words = ["--output", path]
  | case name, words => words = ["--case", name]
  | preflightOnly, words => words = ["--preflight-only"]

/-- The command line says these one after the other. -/
def Spells : List Token → List String → Prop
  | [], args => args = []
  | token :: tokens, args =>
    ∃ words rest, token.Spelled words ∧ Spells tokens rest ∧ args = words ++ rest

/-- Not two values for what may be specified only once. -/
def Token.Apart : Token → Token → Prop
  | mode _, mode _ => False
  | number option _, number option' _ => option ≠ option'
  | _, _ => True

def Token.mode? : Token → Option Mode
  | mode value => some value
  | _ => none

def Token.number? (option : NumberOption) : Token → Option ℕ
  | number option' value => if option' = option then some value else none
  | _ => none

def Token.output? : Token → Option String
  | output path => some path
  | _ => none

def Token.case? : Token → Option String
  | case name => some name
  | _ => none

/-- What has been said, where of outputs and of cases the last one counts. -/
def said (tokens : List Token) : Slots where
  mode := tokens.findSome? Token.mode?
  number option := tokens.findSome? (Token.number? option)
  output := (tokens.reverse.findSome? Token.output?).getD "target/snoozer-bench/results.jsonl"
  caseFilter := tokens.reverse.findSome? Token.case?
  preflightOnly := tokens.contains .preflightOnly

section Loop

variable {slots slots' : Slots} {token other : Token} {tokens : List Token} {args : List String}

/-- What the loop does with it. -/
def Slots.put (slots : Slots) : Token → Slots
  | .bench => slots
  | .mode mode => { slots with mode := some mode }
  | .number option value => { slots with number := Function.update slots.number option (some value) }
  | .output path => { slots with output := path }
  | .case name => { slots with caseFilter := some name }
  | .preflightOnly => { slots with preflightOnly := true }

/-- It was not given before, where it may be given only once. -/
def Slots.Free (slots : Slots) : Token → Prop
  | .mode _ => slots.mode = none
  | .number option _ => slots.number option = none
  | _ => True

theorem setOnce_bind {α β : Type} {slot : Option α} {value : α} {name : String}
    {f : Option α → Except ParseStop β} {b : β} :
    (setOnce slot value name).bind f = .ok b ↔ slot = none ∧ f (some value) = .ok b := by
  cases slot with
  | none => exact (and_iff_right rfl).symm
  | some a => exact iff_of_false (fun h => by cases h) fun h => by cases h.1

/-- A number is parsed on exactly when its text is a literal of a machine word. -/
theorem parseNumber_bind {β : Type} {text : String} {f : ℕ → Except ParseStop β} {b : β} :
    (parseNumber text).bind f = .ok b ↔
      ∃ value, Decimal.Literal wordMax text.toList value ∧ f value = .ok b := by
  unfold parseNumber
  constructor
  · intro h
    cases hread : Decimal.fromStr wordMax text.toList with
    | error error =>
      rw [hread] at h
      cases h
    | ok value =>
      rw [hread] at h
      exact ⟨value, Decimal.fromStr_eq_ok.mp hread, h⟩
  · rintro ⟨value, hvalue, h⟩
    rw [Decimal.fromStr_eq_ok.mpr hvalue]
    exact h

def Flag.names : Flag → List String
  | bench => ["--bench"]
  | mode value => [value.flag]
  | number option => [option.name]
  | output => ["--output"]
  | case => ["--case"]
  | preflightOnly => ["--preflight-only"]
  | help => ["--help", "-h"]

/-- A word is looked up under each of its names. -/
theorem lookup_flags {word : String} {flag : Flag} :
    flags.lookup word = some flag ↔ word ∈ flag.names := by
  constructor
  · intro h
    obtain ⟨before, after, heq, -⟩ := List.lookup_eq_some_iff.mp h
    have hmem : (word, flag) ∈ flags := by
      rw [heq]
      exact List.mem_append_right _ List.mem_cons_self
    have hall : ∀ pair ∈ flags, pair.1 ∈ pair.2.names := by decide
    exact hall _ hmem
  · intro h
    have hnames : ∀ flag : Flag, ∀ name ∈ flag.names, flags.lookup name = some flag := by
      intro flag
      cases flag with
      | mode value => cases value <;> decide
      | number option => cases option <;> decide
      | _ => decide
    exact hnames flag word h

/-- The loop goes on behind the words of one token. -/
theorem readArguments_spelled {words behind : List String} (h : token.Spelled words) :
    readArguments slots (words ++ behind) = .ok slots' ↔
      slots.Free token ∧ readArguments (slots.put token) behind = .ok slots' := by
  have hflag (flag : Flag) {word : String} (hword : word ∈ flag.names) :
      flags.lookup word = some flag := lookup_flags.mpr hword
  cases token with
  | bench =>
    obtain rfl := h
    rw [List.singleton_append, readArguments.eq_def]
    simp only [hflag .bench List.mem_cons_self]
    exact (and_iff_right trivial).symm
  | mode value =>
    obtain rfl := h
    rw [List.singleton_append, readArguments.eq_def]
    simp only [hflag (.mode value) List.mem_cons_self]
    exact setOnce_bind
  | number option value =>
    obtain ⟨text, hvalue, rfl⟩ := h
    rw [List.cons_append, List.singleton_append, readArguments.eq_def]
    simp only [hflag (.number option) List.mem_cons_self, parseNumber_bind]
    constructor
    · rintro ⟨value', hvalue', h⟩
      -- the text has been read as the number of the token
      obtain rfl := hvalue.unique hvalue'
      exact setOnce_bind.mp h
    · intro h
      exact ⟨value, hvalue, setOnce_bind.mpr h⟩
  | output path =>
    obtain rfl := h
    rw [List.cons_append, List.singleton_append, readArguments.eq_def]
    simp only [hflag .output List.mem_cons_self]
    exact (and_iff_right trivial).symm
  | case name =>
    obtain rfl := h
    rw [List.cons_append, List.singleton_append, readArguments.eq_def]
    simp only [hflag .case List.mem_cons_self]
    exact (and_iff_right trivial).symm
  | preflightOnly =>
    obtain rfl := h
    rw [List.singleton_append, readArguments.eq_def]
    simp only [hflag .preflightOnly List.mem_cons_self]
    exact (and_iff_right trivial).symm

/-- What the loop accepts begins with the words of a token. -/
theorem spelled_of_readArguments {word : String} {rest : List String}
    (h : readArguments slots (word :: rest) = .ok slots') :
    ∃ (token : Token) (words behind : List String), token.Spelled words ∧
      word :: rest = words ++ behind ∧ behind.length < (word :: rest).length := by
  rw [readArguments.eq_def] at h
  cases hlookup : flags.lookup word with
  | none =>
    simp only [hlookup] at h
    cases h
  | some flag =>
    simp only [hlookup] at h
    have hword := lookup_flags.mp hlookup
    have hone {name : String} : rest.length < (name :: rest).length := Nat.lt_succ_self _
    have htwo {name text : String} {behind : List String} :
        behind.length < (name :: text :: behind).length := by
      rw [List.length_cons, List.length_cons]
      omega
    cases flag with
    | bench =>
      obtain rfl := List.mem_singleton.mp hword
      exact ⟨.bench, ["--bench"], rest, rfl, rfl, hone⟩
    | mode value =>
      obtain rfl := List.mem_singleton.mp hword
      exact ⟨.mode value, [value.flag], rest, rfl, rfl, hone⟩
    | number option =>
      obtain rfl := List.mem_singleton.mp hword
      cases rest with
      | nil => cases h
      | cons text behind =>
        obtain ⟨value, hvalue, -⟩ := parseNumber_bind.mp h
        exact ⟨.number option value, [option.name, text], behind, ⟨text, hvalue, rfl⟩, rfl, htwo⟩
    | output =>
      obtain rfl := List.mem_singleton.mp hword
      cases rest with
      | nil => cases h
      | cons path behind => exact ⟨.output path, ["--output", path], behind, rfl, rfl, htwo⟩
    | case =>
      obtain rfl := List.mem_singleton.mp hword
      cases rest with
      | nil => cases h
      | cons name behind => exact ⟨.case name, ["--case", name], behind, rfl, rfl, htwo⟩
    | preflightOnly =>
      obtain rfl := List.mem_singleton.mp hword
      exact ⟨.preflightOnly, ["--preflight-only"], rest, rfl, rfl, hone⟩
    | help => cases h

/-- Each token finds its slot empty where it needs to. -/
def Slots.Admits (slots : Slots) : List Token → Prop
  | [] => True
  | token :: tokens => slots.Free token ∧ (slots.put token).Admits tokens

/-- The loop accepts what tokens say that find their slots empty, and puts them there. -/
theorem readArguments_eq_ok : readArguments slots args = .ok slots' ↔
    ∃ tokens, Spells tokens args ∧ slots.Admits tokens ∧ slots' = tokens.foldl Slots.put slots := by
  constructor
  · -- every token takes some words, so on the number of the words
    induction hlength : args.length using Nat.strong_induction_on generalizing args slots with
    | _ n ih =>
      intro h
      cases args with
      | nil => exact ⟨[], rfl, trivial, (Except.ok.inj h).symm⟩
      | cons word rest =>
        obtain ⟨token, words, behind, hspelled, hargs, hless⟩ := spelled_of_readArguments h
        rw [hargs] at h
        obtain ⟨hfree, hrest⟩ := (readArguments_spelled hspelled).mp h
        obtain ⟨tokens, htokens, hadmits, hslots⟩ := ih _ (hlength ▸ hless) rfl hrest
        exact ⟨token :: tokens, ⟨words, behind, hspelled, htokens, hargs⟩, ⟨hfree, hadmits⟩, hslots⟩
  · rintro ⟨tokens, hspells, hadmits, rfl⟩
    induction tokens generalizing args slots with
    | nil =>
      obtain rfl := hspells
      rfl
    | cons token tokens ih =>
      obtain ⟨words, rest, hspelled, htokens, rfl⟩ := hspells
      obtain ⟨hfree, hadmits⟩ := hadmits
      exact (readArguments_spelled hspelled).mpr ⟨hfree, ih htokens hadmits⟩

theorem free_put : (slots.put token).Free other ↔ slots.Free other ∧ token.Apart other := by
  cases token <;> cases other <;>
    simp only [Slots.put, Slots.Free, Token.Apart, reduceCtorEq, and_false, and_true]
  -- two numbers share a slot only where their options agree
  next option value option' value' =>
    by_cases h : option = option'
    · rw [h, Function.update_self]
      exact iff_of_false (fun h => by cases h) fun h => h.2 rfl
    · rw [Function.update_of_ne (Ne.symm h)]
      exact (and_iff_left h).symm

/-- Tokens are admitted when each finds its slot empty and no two of them want the same one. -/
theorem admits_iff : slots.Admits tokens ↔
    (∀ token ∈ tokens, slots.Free token) ∧ tokens.Pairwise Token.Apart := by
  induction tokens generalizing slots with
  | nil => exact iff_of_true trivial ⟨fun _ h => absurd h List.not_mem_nil, List.Pairwise.nil⟩
  | cons token tokens ih =>
    rw [Slots.Admits, ih, List.pairwise_cons, List.forall_mem_cons]
    simp only [free_put]
    constructor
    · rintro ⟨hfree, hrest, hapart⟩
      exact ⟨⟨hfree, fun other h => (hrest other h).1⟩, fun other h => (hrest other h).2, hapart⟩
    · rintro ⟨⟨hfree, hrest⟩, hother, hapart⟩
      exact ⟨hfree, fun other h => ⟨hrest other h, hother other h⟩, hapart⟩

theorem admits_initial : Slots.initial.Admits tokens ↔ tokens.Pairwise Token.Apart := by
  rw [admits_iff]
  apply and_iff_right
  intro token _
  cases token <;> simp only [Slots.Free, Slots.initial]

/-- Where every slot was empty, it holds what was said. -/
theorem foldl_put (h : slots.Admits tokens) : tokens.foldl Slots.put slots = {
    mode := slots.mode.or (said tokens).mode
    number := fun option => (slots.number option).or ((said tokens).number option)
    output := (tokens.reverse.findSome? Token.output?).getD slots.output
    caseFilter := (said tokens).caseFilter.or slots.caseFilter
    preflightOnly := slots.preflightOnly || (said tokens).preflightOnly } := by
  induction tokens generalizing slots with
  | nil => simp [said]
  | cons token tokens ih =>
    obtain ⟨hfree, hadmits⟩ := h
    rw [List.foldl_cons, ih hadmits]
    cases token <;>
      simp [said, Slots.put, Slots.Free, Token.mode?, Token.number?, Token.output?, Token.case?,
        List.findSome?_cons] at hfree ⊢
    next value =>
      rw [hfree]
      rfl
    -- the number is in its own slot, the others hold what they held
    next option value =>
      funext option'
      by_cases hoption : option = option'
      · rw [← hoption, Function.update_self, if_pos rfl, hfree]
        rfl
      · rw [Function.update_of_ne (Ne.symm hoption), if_neg hoption]

/-- The arguments that are read are those some tokens spell, each said once. -/
theorem readArguments_initial : readArguments .initial args = .ok slots ↔
    ∃ tokens, Spells tokens args ∧ tokens.Pairwise Token.Apart ∧ slots = said tokens := by
  rw [readArguments_eq_ok]
  constructor
  · rintro ⟨tokens, hspells, hadmits, rfl⟩
    refine ⟨tokens, hspells, admits_initial.mp hadmits, ?_⟩
    rw [foldl_put hadmits]
    simp [Slots.initial, said]
  · rintro ⟨tokens, hspells, hapart, rfl⟩
    have hadmits := admits_initial.mpr hapart
    refine ⟨tokens, hspells, hadmits, ?_⟩
    rw [foldl_put hadmits]
    simp [Slots.initial, said]

end Loop

structure Arguments.Valid (arguments : Arguments) : Prop where
  duration : 0 < arguments.trialDuration
  repetitions : 0 < arguments.repetitions
  samples : 0 < arguments.maxSamples
  official : arguments.mode = .official → 250000000 ≤ arguments.trialDuration ∧
    7 ≤ arguments.repetitions ∧ 1000 ≤ arguments.warmupEvents ∧ 10000 ≤ arguments.maxSamples ∧
    arguments.caseFilter = none
  roles : arguments.cpuOverrides.isSome = true ∨
    arguments.waiterCpu = none ∧ arguments.victimCpu = none ∧ arguments.producerCpu = none ∧
      arguments.controllerCpu = none

theorem roleCount_iff {slots : Slots} : (slots.roleCount = 0 ∨ slots.roleCount = 4) ↔
    slots.settled.cpuOverrides.isSome = true ∨
      slots.settled.waiterCpu = none ∧ slots.settled.victimCpu = none ∧
        slots.settled.producerCpu = none ∧ slots.settled.controllerCpu = none := by
  unfold Slots.roleCount Arguments.cpuOverrides Slots.settled
  cases slots.number .waiterCpu <;> cases slots.number .victimCpu <;>
    cases slots.number .producerCpu <;> cases slots.number .controllerCpu <;> simp

/-- Slots give arguments exactly when those they settle on are valid. -/
theorem arguments_eq_ok {slots : Slots} {arguments : Arguments} :
    slots.arguments = .ok arguments ↔ arguments = slots.settled ∧ arguments.Valid := by
  unfold Slots.arguments
  rw [guard_eq_ok, guard_eq_ok, guard_eq_ok, guard_eq_ok, Except.ok.injEq]
  have hduration : slots.settled.trialDuration = slots.chosen .durationMs * 1000000 := rfl
  have hrepetitions : slots.settled.repetitions = slots.chosen .repetitions := rfl
  have hwarmup : slots.settled.warmupEvents = slots.chosen .warmupEvents := rfl
  have hsamples : slots.settled.maxSamples = slots.chosen .maxSamples := rfl
  constructor
  · rintro ⟨hpositive, hlimits, hfilter, hroles, rfl⟩
    refine ⟨rfl, {
      duration := by omega
      repetitions := by omega
      samples := by omega
      official := fun hmode => ?_
      roles := roleCount_iff.mp (by omega) }⟩
    have hlimits := not_and.mp hlimits hmode
    have hfilter : slots.caseFilter = none := by
      simpa using not_and.mp hfilter hmode
    exact ⟨by omega, by omega, by omega, by omega, hfilter⟩
  · rintro ⟨rfl, hvalid⟩
    have hduration' := hvalid.duration
    have hrepetitions' := hvalid.repetitions
    have hsamples' := hvalid.samples
    have hroles := roleCount_iff.mpr hvalid.roles
    refine ⟨by omega, ?_, ?_, by omega, rfl⟩
    · rintro ⟨hmode, hlow⟩
      obtain ⟨h₁, h₂, h₃, h₄, -⟩ := hvalid.official hmode
      omega
    · rintro ⟨hmode, hsome⟩
      obtain ⟨-, -, -, -, hnone⟩ := hvalid.official hmode
      rw [show slots.caseFilter = none from hnone] at hsome
      cases hsome

/-- The arguments that are accepted are those that say nothing twice, where once is allowed, and of
which the settled values are valid; in what order they stand matters to nothing but the last output
and the last case. -/
theorem arguments_accepted_iff {args : List String} {arguments : Arguments} :
    Arguments.parse args = .ok arguments ↔
      ∃ tokens, Spells tokens args ∧ tokens.Pairwise Token.Apart ∧
        arguments = (said tokens).settled ∧ arguments.Valid := by
  unfold Arguments.parse
  constructor
  · intro h
    obtain ⟨slots, hread, hslots⟩ := bind_eq_ok.mp h
    obtain ⟨tokens, hspells, hapart, rfl⟩ := readArguments_initial.mp hread
    obtain ⟨hsettled, hvalid⟩ := arguments_eq_ok.mp hslots
    exact ⟨tokens, hspells, hapart, hsettled, hvalid⟩
  · rintro ⟨tokens, hspells, hapart, hsettled, hvalid⟩
    exact bind_eq_ok.mpr ⟨said tokens, readArguments_initial.mpr ⟨tokens, hspells, hapart, rfl⟩,
      arguments_eq_ok.mpr ⟨hsettled, hvalid⟩⟩

end Snoozer.WakeLatency
