import Snoozer.JsonString
import Snoozer.CpuCapabilities

/-! `json_escape` of `benches/support/pure.rs` and the records of `benches/wake_latency.rs` that
hold no fraction: an escaped text can be read back, and every record is one line. -/
namespace Snoozer.WakeLatency

/-- `char::is_control`. -/
def isControl (character : Char) : Bool :=
  character.toNat < 0x20 || 0x7f ≤ character.toNat && character.toNat ≤ 0x9f

/-- The format `{:04x}`. -/
def lowerHex04 (n : ℕ) : List Char := (Nat.toDigits 16 n).leftpad 4 '0'

def escapeCharacter (character : Char) : String :=
  if character = '\"' then "\\\""
  else if character = '\\' then "\\\\"
  else if character = '\n' then "\\n"
  else if character = '\r' then "\\r"
  else if character = '\t' then "\\t"
  else if isControl character then "\\u" ++ String.ofList (lowerHex04 character.toNat)
  else String.singleton character

def jsonEscape (value : String) : String :=
  value.toList.foldl (fun escaped character => escaped ++ escapeCharacter character) ""

example : jsonEscape "a\"b\\c\n" = "a\\\"b\\\\c\\n" := by decide

/-- The escaped string is the escapes of its characters one after the other. -/
theorem jsonEscape_toList (value : String) :
    (jsonEscape value).toList =
      value.toList.flatMap fun character => (escapeCharacter character).toList := by
  have hfold (chars : List Char) (escaped : String) :
      (chars.foldl (fun escaped character => escaped ++ escapeCharacter character) escaped).toList =
        escaped.toList ++ chars.flatMap fun character => (escapeCharacter character).toList := by
    induction chars generalizing escaped with
    | nil => simp only [List.foldl_nil, List.flatMap_nil, List.append_nil]
    | cons character chars ih =>
      rw [List.foldl_cons, ih, String.toList_append, List.flatMap_cons, List.append_assoc]
  exact hfold value.toList ""

/-- Control characters have two hexadecimal digits, which are padded to four. -/
theorem lowerHex04_eq {n : ℕ} (hn : n < 0x100) :
    lowerHex04 n = ['0', '0', (n / 16).digitChar, (n % 16).digitChar] := by
  unfold lowerHex04
  by_cases h : n < 16
  · have hdiv : n / 16 = 0 := by omega
    have hmod : n % 16 = n := by omega
    rw [Nat.toDigits_of_lt_base h, hdiv, hmod]
    rfl
  · have hdiv : n / 16 < 16 := by omega
    rw [Nat.toDigits_of_base_le (by decide) (by omega), Nat.toDigits_of_lt_base hdiv]
    rfl

theorem hexValue_digitChar : ∀ digit < 16, Json.hexValue digit.digitChar = some digit := by
  decide

theorem codeUnit_lowerHex04 {n : ℕ} (hn : n < 0x100) :
    Json.codeUnit '0' '0' (n / 16).digitChar (n % 16).digitChar = some n := by
  have hhigh := hexValue_digitChar (n / 16) (by omega)
  have hlow := hexValue_digitChar (n % 16) (by omega)
  have hzero : Json.hexValue '0' = some 0 := by decide
  have hvalue : ((0 * 16 + 0) * 16 + n / 16) * 16 + n % 16 = n := by omega
  unfold Json.codeUnit
  simp only [hzero, hhigh, hlow, Option.bind_eq_bind, Option.bind_some, Option.pure_def, hvalue]

theorem isControl_iff {character : Char} : isControl character = true ↔
    character.toNat < 0x20 ∨ 0x7f ≤ character.toNat ∧ character.toNat ≤ 0x9f := by
  simp only [isControl, Bool.or_eq_true, Bool.and_eq_true, decide_eq_true_eq]

/-- An escape is a backslash and one letter, the code unit of a control character, or the character
itself. -/
theorem escapeCharacter_cases (character : Char) :
    (∃ letter, (escapeCharacter character).toList = ['\\', letter] ∧
      Json.shortEscape letter = some character ∧ isControl letter = false) ∨
    (isControl character = true ∧
      (escapeCharacter character).toList = '\\' :: 'u' :: lowerHex04 character.toNat) ∨
    (isControl character = false ∧ character ≠ '\"' ∧ character ≠ '\\' ∧
      (escapeCharacter character).toList = [character]) := by
  unfold escapeCharacter
  split
  · next h => exact Or.inl ⟨'\"', rfl, by rw [h]; rfl, rfl⟩
  split
  · next h => exact Or.inl ⟨'\\', rfl, by rw [h]; rfl, rfl⟩
  split
  · next h => exact Or.inl ⟨'n', rfl, by rw [h]; rfl, rfl⟩
  split
  · next h => exact Or.inl ⟨'r', rfl, by rw [h]; rfl, rfl⟩
  split
  · next h => exact Or.inl ⟨'t', rfl, by rw [h]; rfl, rfl⟩
  split
  · next h =>
    refine Or.inr (Or.inl ⟨h, ?_⟩)
    rw [String.toList_append, String.toList_ofList, String.toList_ofList]
    rfl
  · next hquote hbackslash _ _ _ hcontrol =>
    exact Or.inr (Or.inr
      ⟨Bool.eq_false_of_not_eq_true hcontrol, hquote, hbackslash, String.toList_singleton _⟩)

theorem lt_of_isControl {character : Char} (h : isControl character = true) :
    character.toNat < 0x100 := by
  have hcontrol := isControl_iff.mp h
  omega

/-- Every escape is an element of the grammar that denotes its character. -/
theorem escapeCharacter_spells (character : Char) :
    Json.Spells (escapeCharacter character).toList character := by
  rcases escapeCharacter_cases character with ⟨letter, htext, hshort, -⟩ | ⟨hcontrol, htext⟩ |
    ⟨hcontrol, hquote, hbackslash, htext⟩
  · rw [htext]
    exact Json.spells_short hshort
  · have hsmall := lt_of_isControl hcontrol
    rw [htext, lowerHex04_eq hsmall]
    exact Json.spells_unicode (codeUnit_lowerHex04 hsmall)
  · have hprintable : ¬ isControl character = true := Bool.eq_false_iff.mp hcontrol
    rw [isControl_iff] at hprintable
    rw [htext]
    exact Json.spells_unescaped ⟨by omega, hquote, hbackslash⟩

theorem isControl_digitChar : ∀ digit < 16, isControl digit.digitChar = false := by
  decide

/-- No escape holds a control character. -/
theorem escapeCharacter_printable (character : Char) :
    ∀ c ∈ (escapeCharacter character).toList, isControl c = false := by
  have hbackslash : isControl '\\' = false := rfl
  rcases escapeCharacter_cases character with ⟨letter, htext, -, hletter⟩ | ⟨hcontrol, htext⟩ |
    ⟨hprintable, -, -, htext⟩
  · rw [htext]
    exact List.forall_mem_cons.mpr ⟨hbackslash, List.forall_mem_singleton.mpr hletter⟩
  · have hsmall := lt_of_isControl hcontrol
    have hhigh := isControl_digitChar (character.toNat / 16) (by omega)
    have hlow := isControl_digitChar (character.toNat % 16) (by omega)
    have hzero : isControl '0' = false := rfl
    have hletter : isControl 'u' = false := rfl
    rw [htext, lowerHex04_eq hsmall]
    simp only [List.forall_mem_cons, List.not_mem_nil, false_imp_iff, implies_true, and_true]
    exact ⟨hbackslash, hletter, hzero, hzero, hhigh, hlow⟩
  · rw [htext]
    exact List.forall_mem_singleton.mpr hprintable

theorem jsonEscape_printable (value : String) :
    ∀ c ∈ (jsonEscape value).toList, isControl c = false := by
  intro c hc
  rw [jsonEscape_toList, List.mem_flatMap] at hc
  obtain ⟨character, -, hc⟩ := hc
  exact escapeCharacter_printable character c hc

theorem decode_jsonEscape (value : String) : Json.decode (jsonEscape value) = some value := by
  rw [Json.decode, jsonEscape_toList, Json.decodeChars_flatMap escapeCharacter_spells]
  rw [Option.map_some, String.ofList_toList]

theorem jsonEscape_injective : Function.Injective jsonEscape := by
  intro value value' h
  have hdecode := congrArg Json.decode h
  rw [decode_jsonEscape, decode_jsonEscape] at hdecode
  exact Option.some.inj hdecode

/-- An escaped string is a body of the JSON grammar that denotes the string and nothing else. It
holds no control character at all, so no line break, and no two strings are escaped alike. -/
theorem json_escape_round_trip :
    (∀ value, (∃ pieces, Json.Body (jsonEscape value).toList pieces ∧
        Json.text pieces = some value.toList) ∧
      (∀ c ∈ (jsonEscape value).toList, isControl c = false ∧ c ≠ '\n' ∧ c ≠ '\r') ∧
      Json.decode (jsonEscape value) = some value) ∧
    Function.Injective jsonEscape := by
  refine ⟨fun value => ⟨?_, ?_, decode_jsonEscape value⟩, jsonEscape_injective⟩
  · exact Json.decode_eq_some.mp (decode_jsonEscape value)
  · intro c hc
    have hprintable := jsonEscape_printable value c hc
    refine ⟨hprintable, ?_, ?_⟩
    · rintro rfl
      exact absurd hprintable (by decide)
    · rintro rfl
      exact absurd hprintable (by decide)

inductive Workload where
  | saturated | bursty
  deriving DecidableEq, Repr

def Workload.asStr : Workload → String
  | saturated => "saturated"
  | bursty => "bursty"

inductive Surface where
  | direct | singleParker | multiParker | stdPark
  deriving DecidableEq, Repr

def Surface.asStr : Surface → String
  | direct => "direct_atomic"
  | singleParker => "single_parker"
  | multiParker => "multi_parker"
  | stdPark => "std_parker"

inductive Filtering where
  | raw | filtered
  deriving DecidableEq, Repr

def Filtering.asStr : Filtering → String
  | raw => "raw"
  | filtered => "filtered"

def hardwareBackendName : HardwareBackend → String
  | .amdMwaitx => "amd_mwaitx"
  | .intelUmwait => "intel_umwait_c0_1"

inductive StrategyKind where
  | busySpin
  | spinThenYield (iterations : ℕ)
  | hardwareWait (backend : HardwareBackend)
  | spinThenHardwareWait (backend : HardwareBackend) (iterations : ℕ)
  | amdMwaitxC1
  | stdPark
  deriving DecidableEq, Repr

structure Case where
  strategy : StrategyKind
  surface : Surface
  filtering : Filtering
  deriving DecidableEq, Repr

def StrategyKind.name : StrategyKind → String
  | busySpin => "busy_spin"
  | spinThenYield iterations => "spin_then_yield_" ++ iterations.repr
  | hardwareWait backend => hardwareBackendName backend
  | spinThenHardwareWait backend iterations =>
    "spin_then_" ++ hardwareBackendName backend ++ "_" ++ iterations.repr
  | amdMwaitxC1 => "amd_mwaitx_cpu_c1_diagnostic"
  | stdPark => "std_park"

def Case.name (case : Case) : String :=
  case.strategy.name ++ "/" ++ case.surface.asStr ++ "/" ++ case.filtering.asStr

/-- A member of a JSON object whose value is a string. -/
def stringMember (key value : String) : String := "\"" ++ key ++ "\":\"" ++ value ++ "\""

def natMember (key : String) (value : ℕ) : String := "\"" ++ key ++ "\":" ++ value.repr

/-- `writeln!` of one object. -/
def objectLine (members : List String) : String :=
  "\x7b" ++ String.intercalate "," members ++ "\x7d\n"

def skipped (case : Case) (workload : Workload) (reason : String) : String :=
  objectLine [stringMember "type" "skip", stringMember "case" (jsonEscape case.name),
    stringMember "workload" workload.asStr, stringMember "reason" (jsonEscape reason)]

/-- The second record of `repetition`: the corrected samples in the order of observation. -/
def latencySamples (case : Case) (workload : Workload) (repetition : ℕ)
    (rawLatencyCycles : List ℕ) : String :=
  objectLine [stringMember "type" "latency_samples",
    stringMember "case" (jsonEscape case.name), stringMember "workload" workload.asStr,
    natMember "repetition" repetition, stringMember "unit" "TSC cycles",
    stringMember "tsc_offset_correction" "applied", stringMember "order" "observation",
    "\"values\":[" ++ String.intercalate "," (rawLatencyCycles.map Nat.repr) ++ "]"]

def noWinner (workload : Workload) : String :=
  objectLine [stringMember "type" "winner", stringMember "workload" workload.asStr,
    "\"case\":null"]

example : skipped ⟨.busySpin, .direct, .raw⟩ .saturated "no\nbackend" =
    "\x7b\"type\":\"skip\",\"case\":\"busy_spin/direct_atomic/raw\",\"workload\":\"saturated\"," ++
      "\"reason\":\"no\\nbackend\"\x7d\n" := by decide

def Breakless (s : String) : Prop := '\n' ∉ s.toList

instance (s : String) : Decidable (Breakless s) := inferInstanceAs (Decidable (_ ∉ _))

/-- One line and its end. -/
def OneLine (record : String) : Prop := ∃ line, record = line ++ "\n" ∧ Breakless line

theorem breakless_append {s t : String} : Breakless (s ++ t) ↔ Breakless s ∧ Breakless t := by
  unfold Breakless
  rw [String.toList_append, List.mem_append, not_or]

/-- Parts without line breaks are joined without one. -/
theorem breakless_intercalate {separator : String} (hseparator : Breakless separator)
    {parts : List String} (hparts : ∀ part ∈ parts, Breakless part) :
    Breakless (String.intercalate separator parts) := by
  induction parts with
  | nil =>
    rw [String.intercalate_nil]
    decide
  | cons part parts ih =>
    have hpart := hparts part List.mem_cons_self
    have hrest := ih fun part hmem => hparts part (List.mem_cons_of_mem _ hmem)
    cases parts with
    | nil =>
      rw [String.intercalate_singleton]
      exact hpart
    | cons next parts =>
      rw [String.intercalate_cons_cons]
      simp only [breakless_append, hpart, hseparator, hrest, and_self]

theorem breakless_jsonEscape (value : String) : Breakless (jsonEscape value) := by
  intro hmem
  exact absurd (jsonEscape_printable value _ hmem) (by decide)

theorem breakless_repr (n : ℕ) : Breakless n.repr := by
  intro hmem
  rw [Nat.toList_repr] at hmem
  exact absurd (Nat.isDigit_of_mem_toDigits (by decide) le_rfl hmem) (by decide)

theorem breakless_stringMember {key value : String} (hkey : Breakless key)
    (hvalue : Breakless value) : Breakless (stringMember key value) := by
  have hquote : Breakless "\"" := by decide
  have hcolon : Breakless "\":\"" := by decide
  simp only [stringMember, breakless_append, hquote, hkey, hcolon, hvalue, and_self]

theorem objectLine_oneLine {members : List String} (h : ∀ member ∈ members, Breakless member) :
    OneLine (objectLine members) := by
  refine ⟨"\x7b" ++ String.intercalate "," members ++ "\x7d", ?_, ?_⟩
  · rw [String.append_assoc]
    rfl
  · have hcomma : Breakless "," := by decide
    have hmembers := breakless_intercalate hcomma h
    have hopen : Breakless "\x7b" := by decide
    have hclose : Breakless "\x7d" := by decide
    simp only [breakless_append, hopen, hmembers, hclose, and_self]

theorem breakless_asStr (workload : Workload) : Breakless workload.asStr := by
  cases workload <;> decide

/-- Whatever the reason says and whichever case it is about, a record is one line. -/
theorem records_one_line (case : Case) (workload : Workload) :
    (∀ reason, OneLine (skipped case workload reason)) ∧
    (∀ repetition samples, OneLine (latencySamples case workload repetition samples)) ∧
    OneLine (noWinner workload) := by
  have hcase := breakless_jsonEscape case.name
  have hworkload := breakless_asStr workload
  refine ⟨fun reason => ?_, fun repetition samples => ?_, ?_⟩
  · apply objectLine_oneLine
    simp only [List.forall_mem_cons, List.not_mem_nil, false_imp_iff, implies_true, and_true]
    exact ⟨breakless_stringMember (by decide) (by decide), breakless_stringMember (by decide) hcase,
      breakless_stringMember (by decide) hworkload,
      breakless_stringMember (by decide) (breakless_jsonEscape reason)⟩
  · have hvalues : ∀ part ∈ samples.map Nat.repr, Breakless part := by
      intro part hmem
      obtain ⟨sample, -, rfl⟩ := List.mem_map.mp hmem
      exact breakless_repr sample
    have hcomma : Breakless "," := by decide
    have hlist := breakless_intercalate hcomma hvalues
    have hnat : Breakless (natMember "repetition" repetition) := by
      simp only [natMember, breakless_append, breakless_repr, and_true]
      decide
    have harray : Breakless ("\"values\":[" ++ String.intercalate "," (samples.map Nat.repr) ++
        "]") := by
      simp only [breakless_append, hlist, and_true]
      decide
    apply objectLine_oneLine
    simp only [List.forall_mem_cons, List.not_mem_nil, false_imp_iff, implies_true, and_true]
    exact ⟨breakless_stringMember (by decide) (by decide), breakless_stringMember (by decide) hcase,
      breakless_stringMember (by decide) hworkload, hnat,
      breakless_stringMember (by decide) (by decide), breakless_stringMember (by decide) (by decide),
      breakless_stringMember (by decide) (by decide), harray⟩
  · apply objectLine_oneLine
    simp only [List.forall_mem_cons, List.not_mem_nil, false_imp_iff, implies_true, and_true]
    exact ⟨breakless_stringMember (by decide) (by decide),
      breakless_stringMember (by decide) hworkload, by decide⟩

end Snoozer.WakeLatency
