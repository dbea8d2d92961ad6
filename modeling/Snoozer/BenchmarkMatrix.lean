import Snoozer.CpuList
import Snoozer.HardwarePreflight
import Snoozer.JsonlOutput

/-! The cases of a benchmark run, `all_cases` of `benches/wake_latency.rs`, and their names. -/
namespace Snoozer.WakeLatency

inductive BenchmarkHardware where
  | amdMwaitx | intelUmwaitC01
  deriving DecidableEq, Repr

structure BenchmarkMatrix where
  hardware : Option BenchmarkHardware
  includeAmdCpuC1Diagnostic : Bool
  deriving DecidableEq, Repr

def benchmarkMatrix (hardware : Option BenchmarkHardware) : BenchmarkMatrix where
  hardware := hardware
  includeAmdCpuC1Diagnostic := hardware = some .amdMwaitx

inductive HardwarePreflight where
  | passed (report : PreflightReport)
  | failed (error : HardwareWaitError)
  deriving DecidableEq, Repr

def HardwarePreflight.backend : HardwarePreflight → Option HardwareBackend
  | passed report => some report.backend
  | failed _ => none

def HardwarePreflight.matrix (preflight : HardwarePreflight) : BenchmarkMatrix :=
  benchmarkMatrix (preflight.backend.map fun
    | .amdMwaitx => .amdMwaitx
    | .intelUmwait => .intelUmwaitC01)

def spinSweep : List ℕ := [32, 128, 512, 2048]

/-- What `append_surface_matrix` appends. -/
def surfaceMatrix (strategy : StrategyKind) : List Case :=
  [Surface.direct, .singleParker, .multiParker].flatMap fun surface =>
    [Filtering.raw, .filtered].map fun filtering => ⟨strategy, surface, filtering⟩

def hardwareCases (matrix : BenchmarkMatrix) : List Case :=
  match matrix.hardware with
  | none => []
  | some hardware =>
    let backend : HardwareBackend := match hardware with
      | .amdMwaitx => .amdMwaitx
      | .intelUmwaitC01 => .intelUmwait
    surfaceMatrix (.hardwareWait backend) ++
      (spinSweep.flatMap fun iterations =>
        surfaceMatrix (.spinThenHardwareWait backend iterations)) ++
      if matrix.includeAmdCpuC1Diagnostic then surfaceMatrix .amdMwaitxC1 else []

/-- The cases before the filter. -/
def everyCase (matrix : BenchmarkMatrix) : List Case :=
  surfaceMatrix .busySpin ++
    (spinSweep.flatMap fun iterations => surfaceMatrix (.spinThenYield iterations)) ++
    hardwareCases matrix ++ [⟨.stdPark, .stdPark, .raw⟩]

def allCases (filter : Option String) (matrix : BenchmarkMatrix) : Except String (List Case) :=
  match filter with
  | none => .ok (everyCase matrix)
  | some filter =>
    let cases := (everyCase matrix).filter fun case => case.name = filter
    if cases.isEmpty then .error s!"unknown benchmark case: {filter}" else .ok cases

/-- A name that ends with a number of iterations, as what stands before it and the digits. -/
theorem spinThenYield_name (iterations : ℕ) :
    (StrategyKind.spinThenYield iterations).name.toList =
      "spin_then_yield_".toList ++ iterations.repr.toList := String.toList_append ..

theorem spinThenHardwareWait_name (backend : HardwareBackend) (iterations : ℕ) :
    (StrategyKind.spinThenHardwareWait backend iterations).name.toList =
      ("spin_then_" ++ hardwareBackendName backend ++ "_").toList ++ iterations.repr.toList :=
  String.toList_append ..

/-- A name has no slash, so it stays one part of a case's identity. -/
theorem slash_notMem_name (strategy : StrategyKind) : '/' ∉ strategy.name.toList := by
  have hdigits (n : ℕ) : '/' ∉ n.repr.toList := by
    have hliteral : Decimal.Literal n n.repr.toList n := Decimal.literal_repr le_rfl
    exact hliteral.notMem (by decide) (by decide)
  cases strategy with
  | busySpin => decide
  | spinThenYield iterations =>
    rw [spinThenYield_name, List.mem_append, not_or]
    exact ⟨by decide, hdigits iterations⟩
  | hardwareWait backend => cases backend <;> decide
  | spinThenHardwareWait backend iterations =>
    rw [spinThenHardwareWait_name, List.mem_append, not_or]
    exact ⟨by cases backend <;> decide, hdigits iterations⟩
  | amdMwaitxC1 => decide
  | stdPark => decide

theorem repr_injective {m n : ℕ} (h : m.repr.toList = n.repr.toList) : m = n := by
  have hm : Decimal.Literal (max m n) m.repr.toList m := Decimal.literal_repr (le_max_left m n)
  have hn : Decimal.Literal (max m n) n.repr.toList n := Decimal.literal_repr (le_max_right m n)
  rw [h] at hm
  exact hm.unique hn

/-- The first characters of the name, in which no number of iterations stands. -/
def StrategyKind.stem : StrategyKind → String
  | busySpin => "busy_spin"
  | spinThenYield _ => "spin_then_yield"
  | hardwareWait .amdMwaitx => "amd_mwaitx"
  | hardwareWait .intelUmwait => "intel_umwait_c0"
  | spinThenHardwareWait .amdMwaitx _ => "spin_then_amd_m"
  | spinThenHardwareWait .intelUmwait _ => "spin_then_intel"
  | amdMwaitxC1 => "amd_mwaitx_cpu_"
  | stdPark => "std_park"

/-- The first fifteen characters of a name are its stem. -/
theorem take_name (strategy : StrategyKind) :
    strategy.name.toList.take 15 = strategy.stem.toList := by
  cases strategy with
  | busySpin => decide
  | spinThenYield iterations =>
    rw [spinThenYield_name, List.take_append_of_le_length (by decide), StrategyKind.stem]
    decide
  | hardwareWait backend => cases backend <;> decide
  | spinThenHardwareWait backend iterations =>
    rw [spinThenHardwareWait_name]
    cases backend
    · rw [List.take_append_of_le_length (by decide), StrategyKind.stem]
      decide
    · rw [List.take_append_of_le_length (by decide), StrategyKind.stem]
      decide
  | amdMwaitxC1 => decide
  | stdPark => decide

/-- A strategy is read off its name. -/
theorem strategy_name_injective {strategy strategy' : StrategyKind}
    (h : strategy.name.toList = strategy'.name.toList) : strategy = strategy' := by
  have hstem : strategy.stem.toList = strategy'.stem.toList := by
    rw [← take_name, ← take_name, h]
  have hyield {m n : ℕ} (h : (StrategyKind.spinThenYield m).name.toList =
      (StrategyKind.spinThenYield n).name.toList) : m = n := by
    rw [spinThenYield_name, spinThenYield_name] at h
    exact repr_injective (List.append_cancel_left h)
  have hwait {backend : HardwareBackend} {m n : ℕ}
      (h : (StrategyKind.spinThenHardwareWait backend m).name.toList =
        (StrategyKind.spinThenHardwareWait backend n).name.toList) : m = n := by
    rw [spinThenHardwareWait_name, spinThenHardwareWait_name] at h
    exact repr_injective (List.append_cancel_left h)
  rcases strategy with _ | n | (_ | _) | ⟨_ | _, n⟩ | _ | _ <;>
    rcases strategy' with _ | n' | (_ | _) | ⟨_ | _, n'⟩ | _ | _ <;>
    dsimp only [StrategyKind.stem] at hstem <;>
    first
    | exact absurd hstem (by decide)
    | rfl
    | skip
  -- where the stems agree, the digits are left of the names
  · rw [hyield h]
  · rw [hwait h]
  · rw [hwait h]

theorem surface_name_injective {surface surface' : Surface}
    (h : surface.asStr.toList = surface'.asStr.toList) : surface = surface' := by
  cases surface <;> cases surface' <;> first | rfl | exact absurd h (by decide)

theorem filtering_name_injective {filtering filtering' : Filtering}
    (h : filtering.asStr.toList = filtering'.asStr.toList) : filtering = filtering' := by
  cases filtering <;> cases filtering' <;> first | rfl | exact absurd h (by decide)

/-- Whatever the iterations, a case is known by its name: the name is cut at its slashes. -/
theorem case_name_injective : Function.Injective Case.name := by
  intro case case' h
  -- neither a strategy nor a surface has a slash in its name
  have hcut (case : Case) : splitOnce '/' case.name.toList = some (case.strategy.name.toList,
      case.surface.asStr.toList ++ '/' :: case.filtering.asStr.toList) := by
    apply splitOnce_eq_some.mpr
    constructor
    · simp only [Case.name, String.toList_append, List.append_assoc]
      rfl
    · exact slash_notMem_name case.strategy
  have hcut' (case : Case) : splitOnce '/'
      (case.surface.asStr.toList ++ '/' :: case.filtering.asStr.toList) =
        some (case.surface.asStr.toList, case.filtering.asStr.toList) := by
    apply splitOnce_eq_some.mpr
    exact ⟨rfl, by cases case.surface <;> decide⟩
  have hparts := (hcut case).symm.trans ((congrArg (splitOnce '/' ·.toList) h).trans (hcut case'))
  obtain ⟨hstrategy, hrest⟩ := Prod.mk.inj (Option.some.inj hparts)
  have hparts' := (hcut' case).symm.trans ((congrArg (splitOnce '/') hrest).trans (hcut' case'))
  obtain ⟨hsurface, hfiltering⟩ := Prod.mk.inj (Option.some.inj hparts')
  cases case
  cases case'
  rw [Case.mk.injEq]
  exact ⟨strategy_name_injective hstrategy, surface_name_injective hsurface,
    filtering_name_injective hfiltering⟩

theorem everyCase_nodup (matrix : BenchmarkMatrix) : (everyCase matrix).Nodup := by
  obtain ⟨hardware, diagnostic⟩ := matrix
  rcases hardware with _ | hardware
  · cases diagnostic <;> decide
  · cases hardware <;> cases diagnostic <;> decide

/-- Names tell any two cases apart. Without a filter a run has each case of its matrix once, and with
a filter the one case that it names. -/
theorem all_cases_named (filter : Option String) (matrix : BenchmarkMatrix) :
    Function.Injective Case.name ∧ (everyCase matrix).Nodup ∧
    ∀ cases, allCases filter matrix = .ok cases ↔
      (filter = none ∧ cases = everyCase matrix) ∨
        ∃ case ∈ everyCase matrix, filter = some case.name ∧ cases = [case] := by
  refine ⟨case_name_injective, everyCase_nodup matrix, fun cases => ?_⟩
  cases filter with
  | none =>
    constructor
    · intro h
      exact Or.inl ⟨rfl, (Except.ok.inj h).symm⟩
    · rintro (⟨-, rfl⟩ | ⟨case, -, h, -⟩)
      · rfl
      · cases h
  | some filter =>
    -- of the cases, at most one has the name
    have hone {case : Case} (hmem : case ∈ everyCase matrix) (hname : case.name = filter) :
        ((everyCase matrix).filter fun case => case.name = filter) = [case] := by
      have hiff : ∀ other : Case, decide (other.name = filter) = decide (other = case) := by
        intro other
        rw [← hname]
        exact decide_eq_decide.mpr case_name_injective.eq_iff
      simp only [hiff]
      rw [List.filter_eq, List.count_eq_one_of_mem (everyCase_nodup matrix) hmem]
      rfl
    by_cases hnamed : ∃ case ∈ everyCase matrix, case.name = filter
    · obtain ⟨case, hmem, hname⟩ := hnamed
      have hcases : allCases (some filter) matrix = .ok [case] := by
        rw [allCases, hone hmem hname]
        rfl
      rw [hcases, Except.ok.injEq]
      constructor
      · rintro rfl
        exact Or.inr ⟨case, hmem, congrArg some hname.symm, rfl⟩
      · rintro (⟨h, -⟩ | ⟨other, -, hother, rfl⟩)
        · cases h
        · have heq : case = other := case_name_injective (hname.trans (Option.some.inj hother))
          rw [heq]
    · have hnone : ((everyCase matrix).filter fun case => case.name = filter) = [] := by
        rw [List.filter_eq_nil_iff]
        exact fun case hmem hname => hnamed ⟨case, hmem, of_decide_eq_true hname⟩
      have hcases : allCases (some filter) matrix =
          .error s!"unknown benchmark case: {filter}" := by
        rw [allCases, hnone]
        rfl
      rw [hcases]
      constructor
      · intro h
        cases h
      · rintro (⟨h, -⟩ | ⟨case, hmem, hname, -⟩)
        · cases h
        · exact absurd ⟨case, hmem, (Option.some.inj hname).symm⟩ hnamed

end Snoozer.WakeLatency
