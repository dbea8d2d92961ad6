import Snoozer.DecimalLiteral
import Snoozer.MaximalRanges
import Snoozer.Results

/-! The CPU lists of `benches/support/pure.rs`, in the format in which the kernel prints masks. -/
namespace Snoozer.WakeLatency
open Results

/-- `usize::MAX` on the target. -/
def usizeMax : ℕ := 2 ^ 64 - 1

def usizeFromStr (text : List Char) : Except Decimal.IntErrorKind ℕ := Decimal.fromStr usizeMax text

/-- `split_once`: what stands before and after the first separator. -/
def splitOnce (separator : Char) : List Char → Option (List Char × List Char)
  | [] => none
  | c :: rest =>
    if c = separator then some ([], rest)
    else (splitOnce separator rest).map fun parts => (c :: parts.1, parts.2)

inductive CpuListError where
  | rangeStart (component : List Char) (error : Decimal.IntErrorKind)
  | rangeEnd (component : List Char) (error : Decimal.IntErrorKind)
  | range (component : List Char)
  | number (component : List Char) (error : Decimal.IntErrorKind)
  deriving DecidableEq, Repr

/-- `debug` is the quoting of the format `{:?}`. -/
def CpuListError.display (debug : List Char → String) : CpuListError → String
  | rangeStart component error => s!"invalid CPU range start {debug component}: {error.display}"
  | rangeEnd component error => s!"invalid CPU range end {debug component}: {error.display}"
  | range component => s!"invalid CPU range {debug component}"
  | number component error => s!"invalid CPU number {debug component}: {error.display}"

def CpuListError.component : CpuListError → List Char
  | rangeStart component _ | rangeEnd component _ | range component | number component _ => component

/-- One round of the loop: the result with the CPUs of the component. -/
def parseComponent (result : Finset ℕ) (component : List Char) :
    Except CpuListError (Finset ℕ) :=
  match splitOnce '-' component with
  | some (start, stop) => do
    let start ← (usizeFromStr start).mapError (CpuListError.rangeStart component)
    let stop ← (usizeFromStr stop).mapError (CpuListError.rangeEnd component)
    if start > stop then
      throw (CpuListError.range component)
    else
      return result ∪ Finset.Icc start stop
  | none => do
    let cpu ← (usizeFromStr component).mapError (CpuListError.number component)
    return insert cpu result

/-- The components of a list. -/
def components (raw : String) : List (List Char) := raw.toList.splitOn ','

def parseCpuList (raw : String) : Except CpuListError (Finset ℕ) :=
  (components raw).foldlM parseComponent ∅

example : (parseCpuList "0-2,7,9-10").toOption = some {0, 1, 2, 7, 9, 10} := by decide

example : parseCpuList "4-2" = .error (.range "4-2".toList) := by decide

abbrev UsizeLiteral (text : List Char) (n : ℕ) : Prop := Decimal.Literal usizeMax text n

/-- The component is a number, or two numbers in order with a hyphen between them. -/
inductive Spans (component : List Char) : ℕ → ℕ → Prop where
  | number {cpu : ℕ} : UsizeLiteral component cpu → Spans component cpu cpu
  | range {start stop : List Char} {first last : ℕ} : component = start ++ '-' :: stop →
      '-' ∉ start → UsizeLiteral start first → UsizeLiteral stop last → first ≤ last →
      Spans component first last

/-- The separator that splits is the first one. -/
theorem splitOnce_eq_some {separator : Char} {text before after : List Char} :
    splitOnce separator text = some (before, after) ↔
      text = before ++ separator :: after ∧ separator ∉ before := by
  induction text generalizing before with
  | nil =>
    simp only [splitOnce, reduceCtorEq, List.nil_eq_append_iff, List.cons_ne_nil, and_false,
      false_and]
  | cons c rest ih =>
    rw [splitOnce]
    by_cases hc : c = separator
    · rw [if_pos hc, hc]
      constructor
      · intro h
        obtain ⟨rfl, rfl⟩ := Prod.mk.inj (Option.some.inj h)
        exact ⟨rfl, List.not_mem_nil⟩
      · rintro ⟨htext, hnot⟩
        cases before with
        | nil => rw [(List.cons.inj htext).2]
        | cons b before => exact absurd ((List.cons.inj htext).1 ▸ List.mem_cons_self) hnot
    · rw [if_neg hc, Option.map_eq_some_iff]
      constructor
      · rintro ⟨parts, hparts, heq⟩
        obtain ⟨rfl, rfl⟩ := Prod.mk.inj heq
        obtain ⟨hrest, hnot⟩ := ih.mp hparts
        exact ⟨by rw [hrest]; rfl, List.not_mem_cons_of_ne_of_not_mem (Ne.symm hc) hnot⟩
      · rintro ⟨htext, hnot⟩
        cases before with
        | nil => exact absurd (List.cons.inj htext).1 hc
        | cons b before =>
          obtain ⟨rfl, hrest⟩ := List.cons.inj htext
          exact ⟨(before, after), ih.mpr ⟨hrest, fun h => hnot (List.mem_cons_of_mem _ h)⟩, rfl⟩

/-- A text is not split exactly when the separator does not occur. -/
theorem splitOnce_eq_none {separator : Char} {text : List Char} :
    splitOnce separator text = none ↔ separator ∉ text := by
  induction text with
  | nil => simp only [splitOnce, List.not_mem_nil, not_false_eq_true]
  | cons c rest ih =>
    rw [splitOnce, List.mem_cons, not_or]
    by_cases hc : c = separator
    · have hne : ¬ (separator ≠ c ∧ separator ∉ rest) := fun h => h.1 hc.symm
      rw [if_pos hc]
      exact iff_of_false (fun h => nomatch h) hne
    · rw [if_neg hc, Option.map_eq_none_iff, ih]
      exact (and_iff_right (Ne.symm hc)).symm

theorem hyphen_notMem {text : List Char} {n : ℕ} (h : UsizeLiteral text n) : '-' ∉ text :=
  h.notMem (by decide) (by decide)

theorem comma_notMem {text : List Char} {n : ℕ} (h : UsizeLiteral text n) : ',' ∉ text :=
  h.notMem (by decide) (by decide)

/-- A component that is accepted spans a range, and the range is added to the result. -/
theorem parseComponent_eq_ok {result result' : Finset ℕ} {component : List Char} :
    parseComponent result component = .ok result' ↔
      ∃ first last, Spans component first last ∧ result' = result ∪ Finset.Icc first last := by
  unfold parseComponent
  cases hsplit : splitOnce '-' component with
  | none =>
    have hnot := splitOnce_eq_none.mp hsplit
    simp only [bind_eq_ok, mapError_eq_ok, pure_eq_ok]
    constructor
    · rintro ⟨cpu, hcpu, rfl⟩
      refine ⟨cpu, cpu, .number (Decimal.fromStr_eq_ok.mp hcpu), ?_⟩
      rw [Finset.Icc_self, Finset.insert_eq, Finset.union_comm]
    · rintro ⟨first, last, hspans, rfl⟩
      cases hspans with
      | number hliteral =>
        refine ⟨first, Decimal.fromStr_eq_ok.mpr hliteral, ?_⟩
        rw [Finset.Icc_self, Finset.insert_eq, Finset.union_comm]
      | range hcomponent =>
        rw [hcomponent] at hnot
        exact absurd (List.mem_append_right _ List.mem_cons_self) hnot
  | some parts =>
    obtain ⟨start, stop⟩ := parts
    obtain ⟨hcomponent, hnot⟩ := splitOnce_eq_some.mp hsplit
    simp only [bind_eq_ok, mapError_eq_ok]
    constructor
    · rintro ⟨first, hfirst, last, hlast, hrange⟩
      split at hrange
      · cases hrange
      · next hle =>
        refine ⟨first, last, ?_, pure_eq_ok.mp hrange⟩
        exact .range hcomponent hnot (Decimal.fromStr_eq_ok.mp hfirst)
          (Decimal.fromStr_eq_ok.mp hlast) (not_lt.mp hle)
    · rintro ⟨first, last, hspans, rfl⟩
      cases hspans with
      | number hliteral =>
        have hhyphen := hyphen_notMem hliteral
        rw [hcomponent] at hhyphen
        exact absurd (List.mem_append_right _ List.mem_cons_self) hhyphen
      | range hcomponent' hnot' hfirst hlast hle =>
        -- Both splits are at the first hyphen.
        have hparts := splitOnce_eq_some.mpr ⟨hcomponent', hnot'⟩
        obtain ⟨rfl, rfl⟩ := Prod.mk.inj (Option.some.inj (hsplit.symm.trans hparts))
        refine ⟨first, Decimal.fromStr_eq_ok.mpr hfirst, last, Decimal.fromStr_eq_ok.mpr hlast, ?_⟩
        rw [if_neg (not_lt.mpr hle)]
        rfl

/-- The number belongs to a component. -/
def Listed (components : List (List Char)) (n : ℕ) : Prop :=
  ∃ component ∈ components, ∃ first last, Spans component first last ∧ first ≤ n ∧ n ≤ last

/-- A component spans one range only. -/
theorem Spans.unique {component : List Char} {first last first' last' : ℕ}
    (h : Spans component first last) (h' : Spans component first' last') :
    first = first' ∧ last = last' := by
  cases h with
  | number hliteral =>
    cases h' with
    | number hliteral' =>
      have heq := hliteral.unique hliteral'
      exact ⟨heq, heq⟩
    | range hcomponent =>
      have hhyphen := hyphen_notMem hliteral
      rw [hcomponent] at hhyphen
      exact absurd (List.mem_append_right _ List.mem_cons_self) hhyphen
  | range hcomponent hnot hfirst hlast =>
    cases h' with
    | number hliteral' =>
      have hhyphen := hyphen_notMem hliteral'
      rw [hcomponent] at hhyphen
      exact absurd (List.mem_append_right _ List.mem_cons_self) hhyphen
    | range hcomponent' hnot' hfirst' hlast' =>
      have hparts := splitOnce_eq_some.mpr ⟨hcomponent, hnot⟩
      have hparts' := splitOnce_eq_some.mpr ⟨hcomponent', hnot'⟩
      obtain ⟨rfl, rfl⟩ := Prod.mk.inj (Option.some.inj (hparts.symm.trans hparts'))
      exact ⟨hfirst.unique hfirst', hlast.unique hlast'⟩

theorem listed_cons {component : List Char} {rest : List (List Char)} {first last n : ℕ}
    (h : Spans component first last) :
    Listed (component :: rest) n ↔ (first ≤ n ∧ n ≤ last) ∨ Listed rest n := by
  unfold Listed
  rw [List.exists_mem_cons_iff]
  apply or_congr_left
  constructor
  · rintro ⟨first', last', h', hin⟩
    obtain ⟨rfl, rfl⟩ := h.unique h'
    exact hin
  · exact fun hin => ⟨first, last, h, hin⟩

/-- The loop succeeds when every component spans a range, and adds what is listed. -/
theorem foldlM_parseComponent {components : List (List Char)} {result result' : Finset ℕ} :
    components.foldlM parseComponent result = .ok result' ↔
      (∀ component ∈ components, ∃ first last, Spans component first last) ∧
      ∀ n, n ∈ result' ↔ n ∈ result ∨ Listed components n := by
  induction components generalizing result with
  | nil =>
    rw [List.foldlM_nil, pure_eq_ok]
    have hnone (n : ℕ) : ¬ Listed [] n := fun ⟨_, hmem, _⟩ => List.not_mem_nil hmem
    constructor
    · rintro rfl
      exact ⟨fun _ hmem => absurd hmem List.not_mem_nil, fun n => by simp only [hnone, or_false]⟩
    · rintro ⟨-, hresult⟩
      ext n
      rw [hresult]
      simp only [hnone, or_false]
  | cons component rest ih =>
    rw [List.foldlM_cons, bind_eq_ok, List.forall_mem_cons]
    constructor
    · rintro ⟨middle, hfirst, hrest⟩
      obtain ⟨first, last, hspans, rfl⟩ := parseComponent_eq_ok.mp hfirst
      obtain ⟨hall, hresult⟩ := ih.mp hrest
      refine ⟨⟨⟨first, last, hspans⟩, hall⟩, fun n => ?_⟩
      rw [hresult, listed_cons hspans, Finset.mem_union, Finset.mem_Icc, or_assoc]
    · rintro ⟨⟨⟨first, last, hspans⟩, hall⟩, hresult⟩
      refine ⟨_, parseComponent_eq_ok.mpr ⟨first, last, hspans, rfl⟩, ih.mpr ⟨hall, fun n => ?_⟩⟩
      rw [hresult, listed_cons hspans, Finset.mem_union, Finset.mem_Icc, or_assoc]

theorem exists_foldlM_parseComponent {components : List (List Char)}
    (h : ∀ component ∈ components, ∃ first last, Spans component first last)
    (result : Finset ℕ) : ∃ result', components.foldlM parseComponent result = .ok result' := by
  induction components generalizing result with
  | nil => exact ⟨result, rfl⟩
  | cons component rest ih =>
    obtain ⟨⟨first, last, hspans⟩, hrest⟩ := List.forall_mem_cons.mp h
    obtain ⟨result', hresult⟩ := ih hrest (result ∪ Finset.Icc first last)
    rw [List.foldlM_cons]
    exact ⟨result', bind_eq_ok.mpr ⟨_, parseComponent_eq_ok.mpr ⟨_, _, hspans, rfl⟩, hresult⟩⟩

theorem parseCpuList_eq_ok {raw : String} {cpus : Finset ℕ} :
    parseCpuList raw = .ok cpus ↔
      (∀ component ∈ components raw, ∃ first last, Spans component first last) ∧
      ∀ n, n ∈ cpus ↔ Listed (components raw) n := by
  unfold parseCpuList
  rw [foldlM_parseComponent]
  simp only [Finset.notMem_empty, false_or]

/-- An error names the component that it is about. -/
theorem parseComponent_error {result : Finset ℕ} {component : List Char} {error : CpuListError}
    (h : parseComponent result component = .error error) : error.component = component := by
  unfold parseComponent at h
  split at h
  · rcases bind_eq_error h with hstart | ⟨first, -, h⟩
    · obtain ⟨_, rfl⟩ := mapError_eq_error hstart
      rfl
    · rcases bind_eq_error h with hstop | ⟨last, -, h⟩
      · obtain ⟨_, rfl⟩ := mapError_eq_error hstop
        rfl
      · split at h
        · obtain rfl := Except.error.inj h
          rfl
        · cases h
  · rcases bind_eq_error h with hnumber | ⟨cpu, -, h⟩
    · obtain ⟨_, rfl⟩ := mapError_eq_error hnumber
      rfl
    · cases h

/-- A list is refused for its first component that spans nothing. -/
theorem parseCpuList_error {raw : String} {error : CpuListError}
    (h : parseCpuList raw = .error error) :
    ∃ before after, components raw = before ++ error.component :: after ∧
      (∀ component ∈ before, ∃ first last, Spans component first last) ∧
      ¬ ∃ first last, Spans error.component first last := by
  unfold parseCpuList at h
  generalize components raw = rest at h ⊢
  generalize (∅ : Finset ℕ) = result at h
  induction rest generalizing result with
  | nil => cases h
  | cons component rest ih =>
    rw [List.foldlM_cons] at h
    rcases bind_eq_error h with hcomponent | ⟨result', hcomponent, h⟩
    · have hname := parseComponent_error hcomponent
      refine ⟨[], rest, by rw [hname, List.nil_append], fun _ hmem => absurd hmem List.not_mem_nil, ?_⟩
      rintro ⟨first, last, hspans⟩
      rw [hname] at hspans
      have hok : parseComponent result component = .ok _ :=
        parseComponent_eq_ok.mpr ⟨first, last, hspans, rfl⟩
      exact nomatch hcomponent.symm.trans hok
    · obtain ⟨before, after, rfl, hbefore, hnot⟩ := ih result' h
      obtain ⟨first, last, hspans, -⟩ := parseComponent_eq_ok.mp hcomponent
      exact ⟨component :: before, after, rfl,
        List.forall_mem_cons.mpr ⟨⟨first, last, hspans⟩, hbefore⟩, hnot⟩

/-- A range as the kernel prints it. -/
def rangeString (range : ℕ × ℕ) : String :=
  if range.1 = range.2 then range.1.repr else range.1.repr ++ "-" ++ range.2.repr

/-- What the kernel prints for a mask: its maximal ranges in ascending order. -/
def cpuListString (cpus : Finset ℕ) : String :=
  String.intercalate "," ((MaximalRanges.ofFinset cpus).map rangeString)

example : (MaximalRanges.ofSorted [0, 1, 2, 7, 9, 10]).map rangeString = ["0-2", "7", "9-10"] := by
  decide

/-- A printed range spans the range. -/
theorem rangeString_spans {range : ℕ × ℕ} (hordered : range.1 ≤ range.2)
    (hmax : range.2 ≤ usizeMax) : Spans (rangeString range).toList range.1 range.2 := by
  have hfirst : UsizeLiteral range.1.repr.toList range.1 :=
    Decimal.literal_repr (hordered.trans hmax)
  have hlast : UsizeLiteral range.2.repr.toList range.2 := Decimal.literal_repr hmax
  unfold rangeString
  split
  · next heq =>
    rw [← heq]
    exact .number hfirst
  · have htext : (range.1.repr ++ "-" ++ range.2.repr).toList =
        range.1.repr.toList ++ '-' :: range.2.repr.toList := by
      rw [String.toList_append, String.toList_append, List.append_assoc]
      rfl
    rw [htext]
    exact .range rfl (hyphen_notMem hfirst) hfirst hlast hordered

theorem Spans.comma_notMem {component : List Char} {first last : ℕ}
    (h : Spans component first last) : ',' ∉ component := by
  cases h with
  | number hliteral => exact WakeLatency.comma_notMem hliteral
  | range hcomponent _ hfirst hlast =>
    rw [hcomponent, List.mem_append, List.mem_cons, not_or, not_or]
    exact ⟨WakeLatency.comma_notMem hfirst, by decide, WakeLatency.comma_notMem hlast⟩

/-- The components of rendered ranges are the rendered ranges. -/
theorem components_intercalate {ranges : List (ℕ × ℕ)} (hne : ranges ≠ [])
    (hspans : ∀ range ∈ ranges, Spans (rangeString range).toList range.1 range.2) :
    components (String.intercalate "," (ranges.map rangeString)) =
      ranges.map fun range => (rangeString range).toList := by
  have hcomma : ∀ component ∈ ranges.map fun range => (rangeString range).toList,
      ',' ∉ component := by
    intro component hmem
    obtain ⟨range, hrange, rfl⟩ := List.mem_map.mp hmem
    exact (hspans range hrange).comma_notMem
  unfold components
  rw [String.toList_intercalate, List.map_map]
  apply List.splitOn_intercalate ',' hcomma
  exact fun hnil => hne (List.map_eq_nil_iff.mp hnil)

/-- Reading ranges back gives the numbers that they cover. -/
theorem parseCpuList_ranges {ranges : List (ℕ × ℕ)} {cpus : Finset ℕ} (hne : ranges ≠ [])
    (hdescribes : MaximalRanges.Describes ranges cpus) (hmax : ∀ n ∈ cpus, n ≤ usizeMax) :
    parseCpuList (String.intercalate "," (ranges.map rangeString)) = .ok cpus := by
  have hspans : ∀ range ∈ ranges, Spans (rangeString range).toList range.1 range.2 := by
    intro range hrange
    have hordered := hdescribes.ordered range hrange
    have hmem := (hdescribes.covers range.2).mpr ⟨range, hrange, hordered, le_rfl⟩
    exact rangeString_spans hordered (hmax _ hmem)
  rw [parseCpuList_eq_ok, components_intercalate hne hspans]
  constructor
  · intro component hmem
    obtain ⟨range, hrange, rfl⟩ := List.mem_map.mp hmem
    exact ⟨_, _, hspans range hrange⟩
  · intro n
    rw [hdescribes.covers]
    constructor
    · rintro ⟨range, hrange, hin⟩
      exact ⟨_, List.mem_map_of_mem hrange, _, _, hspans range hrange, hin⟩
    · rintro ⟨component, hmem, first, last, hcomponent, hin⟩
      obtain ⟨range, hrange, rfl⟩ := List.mem_map.mp hmem
      obtain ⟨rfl, rfl⟩ := hcomponent.unique (hspans range hrange)
      exact ⟨range, hrange, hin⟩

/-- A list is accepted exactly when each of its components is a number or an ascending range, and
then denotes the numbers that belong to a component. Every set but the empty one has one list of
maximal ranges, and reading back what the kernel prints for it gives the set. -/
theorem cpu_list_parsing :
    (∀ raw, (∃ cpus, parseCpuList raw = .ok cpus) ↔
      ∀ component ∈ raw.toList.splitOn ',', ∃ first last, Spans component first last) ∧
    (∀ raw cpus, parseCpuList raw = .ok cpus → ∀ n, n ∈ cpus ↔
      ∃ component ∈ raw.toList.splitOn ',', ∃ first last,
        Spans component first last ∧ first ≤ n ∧ n ≤ last) ∧
    ∀ cpus : Finset ℕ, cpus.Nonempty → (∀ n ∈ cpus, n ≤ usizeMax) →
      (∀ ranges, MaximalRanges.Describes ranges cpus ↔ ranges = MaximalRanges.ofFinset cpus) ∧
      parseCpuList (cpuListString cpus) = .ok cpus := by
  refine ⟨?_, ?_, ?_⟩
  · intro raw
    constructor
    · rintro ⟨cpus, h⟩
      exact (parseCpuList_eq_ok.mp h).1
    · intro hall
      exact exists_foldlM_parseComponent hall ∅
  · intro raw cpus h
    exact (parseCpuList_eq_ok.mp h).2
  · intro cpus hne hmax
    have hdescribes := MaximalRanges.describes_ofFinset cpus
    refine ⟨fun ranges => ⟨MaximalRanges.Describes.eq_ofFinset, fun h => h ▸ hdescribes⟩, ?_⟩
    apply parseCpuList_ranges _ hdescribes hmax
    intro hnil
    obtain ⟨n, hn⟩ := hne
    rw [hdescribes.covers, hnil] at hn
    exact MaximalRanges.covers_nil hn

/-- A list of three ranges is printed in order and read in any. -/
theorem cpu_list_parsing_sample :
    parseCpuList (cpuListString {0, 1, 2, 7, 9, 10}) = .ok {0, 1, 2, 7, 9, 10} ∧
    ∃ component ∈ "9-10,0-2,7".toList.splitOn ',', ∃ first last,
      Spans component first last ∧ first ≤ 10 ∧ 10 ≤ last := by
  obtain ⟨haccepts, hdenotes, hrenders⟩ := cpu_list_parsing
  have hparsed : (parseCpuList "9-10,0-2,7").toOption = some {0, 1, 2, 7, 9, 10} := by decide
  refine ⟨(hrenders {0, 1, 2, 7, 9, 10} ⟨0, by decide⟩ (by decide)).2, ?_⟩
  cases h : parseCpuList "9-10,0-2,7" with
  | error e =>
    rw [h] at hparsed
    cases hparsed
  | ok cpus =>
    rw [h] at hparsed
    obtain rfl := Option.some.inj hparsed
    exact (hdenotes _ _ h 10).mp (by decide)

end Snoozer.WakeLatency
