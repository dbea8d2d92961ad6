import Snoozer.HardwarePreflight

/-! The gates between CPUID and the privileged instructions: what detection may read, which
backend it selects, that the vendor's own detection agrees with the merged one, and that no
other way leads to RDTSCP, MONITORX, MWAITX, UMONITOR or UMWAIT. -/
namespace Snoozer
open Interactive

variable {α : Type}

/-- The vendor's own detection, as its `calibrate_timer_hz` consults it. -/
def redetection : HardwareBackend → PreflightProg Bool
  | .amdMwaitx => do return Amd.timerCalibrationIsUsable (← Amd.detectCapabilities)
  | .intelUmwait => do return Intel.timerCalibrationIsUsable (← Intel.detectCapabilities)

def vendorCalibration : HardwareBackend → PreflightProg (Option ℕ)
  | .amdMwaitx => Amd.calibrateTimerHz
  | .intelUmwait => Intel.calibrateTimerHz

theorem vendorCalibration_eq (backend : HardwareBackend) :
    vendorCalibration backend = calibrateTimerHz (redetection backend) := by
  cases backend with
  | amdMwaitx => rfl
  | intelUmwait => rfl

/-- The backends whose code executes the instruction; `none` for any other call. -/
def PreflightOp.backends : PreflightOp → Option (List HardwareBackend)
  | .rdtscp => some [.amdMwaitx, .intelUmwait]
  | .wait (.monitorx _) => some [.amdMwaitx]
  | .wait (.mwaitx _ _) => some [.amdMwaitx]
  | .wait (.umonitor _) => some [.intelUmwait]
  | .wait .readTscOrdered => some [.intelUmwait]
  | .wait (.umwaitC01 _) => some [.intelUmwait]
  | _ => none

/-- No CPUID, and no instruction of the other backend alone. -/
def PreflightOp.belongsTo (backend : HardwareBackend) : PreflightOp → Bool
  | .cpuid _ _ => false
  | op => op.backends.all fun backends => backends.contains backend

namespace Cpuid

/-- Four bytes determine their word. -/
theorem leBytes_injective : Function.Injective leBytes := by
  intro x y h
  simp only [leBytes, List.cons.injEq, and_true] at h
  obtain ⟨h₀, h₁, h₂, h₃⟩ := h
  have h₀ := congrArg BitVec.toNat h₀
  have h₁ := congrArg BitVec.toNat h₁
  have h₂ := congrArg BitVec.toNat h₂
  have h₃ := congrArg BitVec.toNat h₃
  simp only [BitVec.extractLsb'_toNat, Nat.shiftRight_eq_div_pow] at h₀ h₁ h₂ h₃
  have hx := x.isLt
  have hy := y.isLt
  apply BitVec.eq_of_toNat_eq
  omega

theorem leBytes_fromLeBytes (a b c d : Char) :
    leBytes (fromLeBytes a b c d) = [a, b, c, d].map fun c => BitVec.ofNat 8 c.toNat := by
  simp only [leBytes, fromLeBytes, List.map_cons, List.map_nil]
  generalize BitVec.ofNat 8 a.toNat = a
  generalize BitVec.ofNat 8 b.toNat = b
  generalize BitVec.ofNat 8 c.toNat = c
  generalize BitVec.ofNat 8 d.toNat = d
  simp only [List.cons.injEq, and_true]
  refine ⟨?_, ?_, ?_, ?_⟩ <;>
    ext i hi <;> simp [BitVec.getElem_extractLsb'] <;> grind

theorem length_leBytes (register : BitVec 32) : (leBytes register).length = 4 := rfl

/-- Comparing the three registers with constants is comparing the spelled name. -/
theorem spells_iff (cpu : Cpuid) (b₀ b₁ b₂ b₃ d₀ d₁ d₂ d₃ c₀ c₁ c₂ c₃ : Char) :
    cpu.Spells (String.ofList [b₀, b₁, b₂, b₃, d₀, d₁, d₂, d₃, c₀, c₁, c₂, c₃]) ↔
      (cpu 0 0).ebx = fromLeBytes b₀ b₁ b₂ b₃ ∧ (cpu 0 0).edx = fromLeBytes d₀ d₁ d₂ d₃ ∧
        (cpu 0 0).ecx = fromLeBytes c₀ c₁ c₂ c₃ := by
  have hname : ([b₀, b₁, b₂, b₃, d₀, d₁, d₂, d₃, c₀, c₁, c₂, c₃].map fun c =>
      BitVec.ofNat 8 c.toNat) = leBytes (fromLeBytes b₀ b₁ b₂ b₃) ++
        leBytes (fromLeBytes d₀ d₁ d₂ d₃) ++ leBytes (fromLeBytes c₀ c₁ c₂ c₃) := by
    simp only [leBytes_fromLeBytes, ← List.map_append, List.cons_append, List.nil_append]
  unfold Spells
  rw [String.toList_ofList, hname]
  constructor
  · intro h
    obtain ⟨h, hc⟩ := List.append_inj h (by simp only [List.length_append, length_leBytes])
    obtain ⟨hb, hd⟩ := List.append_inj h (by simp only [length_leBytes])
    exact ⟨leBytes_injective hb, leBytes_injective hd, leBytes_injective hc⟩
  · rintro ⟨hb, hd, hc⟩
    rw [hb, hd, hc]

end Cpuid

theorem featureBit_none (bit : BitVec 32) : featureBit none bit = false := rfl

/-- A mask of one bit reads that bit. -/
theorem featureBit_some (features : BitVec 32) {i : ℕ} (hi : i < 32) :
    featureBit (some features) (1#32 <<< i) = features.getLsbD i := by
  have htwo : features &&& (1#32 <<< i) =
      if features.getLsbD i then BitVec.twoPow 32 i else 0#32 := by
    have hand := BitVec.and_twoPow features i
    rwa [BitVec.twoPow_eq] at hand ⊢
  have hpow : BitVec.twoPow 32 i ≠ 0#32 := by
    intro h
    have hbit := congrArg (fun x => x.getLsbD i) h
    simp only [BitVec.getLsbD_twoPow, BitVec.getLsbD_zero, hi] at hbit
    simp at hbit
  simp only [featureBit, Option.any_some, htwo]
  cases features.getLsbD i with
  | false => simp
  | true => simpa using hpow

namespace Cpuid

variable (cpu : Cpuid)

def Mwaitx : Prop := cpu.Spells "AuthenticAMD" ∧ 0x80000001 ≤ cpu.extendedMax ∧
  (cpu 0x80000001 0).ecx.getLsbD 29 = true

def Umwait : Prop := cpu.Spells "GenuineIntel" ∧ 7 ≤ cpu.basicMax ∧
  (cpu 7 0).ecx.getLsbD 5 = true

def InvariantTsc : Prop := 0x80000007 ≤ cpu.extendedMax ∧ (cpu 0x80000007 0).edx.getLsbD 8 = true

def Rdtscp : Prop := 0x80000001 ≤ cpu.extendedMax ∧ (cpu 0x80000001 0).edx.getLsbD 27 = true

/-- The processor has the backend's wait instruction and a timer that can be calibrated. -/
def Usable : HardwareBackend → Prop
  | .amdMwaitx => cpu.Mwaitx ∧ cpu.InvariantTsc ∧ cpu.Rdtscp
  | .intelUmwait => cpu.Umwait ∧ cpu.InvariantTsc ∧ cpu.Rdtscp

/-- The merged detection can return `detected`. -/
def Detects (detected : Capabilities) : Prop :=
  ∃ t, Reach cpu.machine (detectCapabilities, []) (.ret detected, t)

/-- Only permitted leaves are read, with subleaf zero, and nothing else is called. -/
def Asks (o : Option PreflightOp) (_ : List (Event PreflightOp PreflightAns)) : Prop :=
  ∀ op, o = some op → ∃ leaf, op = .cpuid leaf 0 ∧ cpu.Permitted leaf

variable {cpu} {Q : α → List (Event PreflightOp PreflightAns) → Prop}
  {t : List (Event PreflightOp PreflightAns)}

theorem asks_none : cpu.Asks none t := fun _ h => nomatch h

theorem wp_cpuid {leaf : BitVec 32} {f : CpuidResult → PreflightProg α} (h : cpu.Permitted leaf)
    (hf : ∀ t, wp cpu.machine cpu.Asks (f (cpu leaf 0)) Q t) :
    wp cpu.machine cpu.Asks ((cpuid leaf).bind f) Q t := by
  apply cpu.machine_closed.wp_call
  · intro op hop
    cases hop
    exact ⟨leaf, rfl, h⟩
  · intro x t' hact
    rw [show x = cpu leaf 0 from hact.2]
    exact hf t'

theorem wp_readLeaf {available : Bool} {leaf : BitVec 32}
    {f : Option CpuidResult → PreflightProg α} (h : available = true → cpu.Permitted leaf)
    (hf : ∀ t, wp cpu.machine cpu.Asks (f (if available then some (cpu leaf 0) else none)) Q t) :
    wp cpu.machine cpu.Asks ((readLeaf available leaf).bind f) Q t := by
  cases available with
  | true => exact wp_cpuid (h rfl) hf
  | false => exact hf t

theorem extended_available {leaf : BitVec 32} (hleaf : 0x80000000#32 < leaf)
    (h : decide (cpu.extendedMax ≥ leaf) = true) : cpu.Permitted leaf :=
  Or.inr (Or.inr (Or.inr ⟨hleaf, of_decide_eq_true h⟩))

/-- A feature bit of a leaf that is read only where it is available. -/
theorem featureBit_leaf {c : Prop} [Decidable c] (result : CpuidResult)
    (register : CpuidResult → BitVec 32) {i : ℕ} (hi : i < 32) :
    featureBit ((if decide c = true then some result else none).map register) (1#32 <<< i) = true ↔
      c ∧ (register result).getLsbD i = true := by
  by_cases hc : c
  · simp only [hc, decide_true, if_true, Option.map_some, featureBit_some _ hi, true_and]
  · simp [hc, featureBit_none]

/-- What the AMD module reads off a processor. -/
structure ReadsAmd (cpu : Cpuid) (capabilities : Capabilities) : Prop where
  vendor : capabilities.amdVendor = true ↔ cpu.Spells "AuthenticAMD"
  monitorxMwaitx : capabilities.monitorxMwaitx = true ↔
    0x80000001 ≤ cpu.extendedMax ∧ (cpu 0x80000001 0).ecx.getLsbD 29 = true
  invariantTsc : capabilities.invariantTsc = true ↔ cpu.InvariantTsc
  rdtscp : capabilities.rdtscp = true ↔ cpu.Rdtscp

structure ReadsIntel (cpu : Cpuid) (capabilities : Intel.IntelCapabilities) : Prop where
  vendor : capabilities.intelVendor = true ↔ cpu.Spells "GenuineIntel"
  waitpkg : capabilities.waitpkg = true ↔ 7 ≤ cpu.basicMax ∧ (cpu 7 0).ecx.getLsbD 5 = true
  invariantTsc : capabilities.invariantTsc = true ↔ cpu.InvariantTsc
  rdtscp : capabilities.rdtscp = true ↔ cpu.Rdtscp

/-- The AMD detection asks for no more leaves than it may and reads what the processor has. -/
theorem amd_detection : wp cpu.machine cpu.Asks Amd.detectCapabilities
    (fun capabilities _ => cpu.ReadsAmd capabilities) t := by
  apply wp_cpuid (Or.inl rfl)
  intro t
  apply wp_cpuid (Or.inr (Or.inl rfl))
  intro t
  apply wp_readLeaf (extended_available (by decide))
  intro t
  apply wp_readLeaf (extended_available (by decide))
  intro t
  apply cpu.machine_closed.wp_ret asks_none
  constructor
  · rw [show "AuthenticAMD" = String.ofList
      ['A', 'u', 't', 'h', 'e', 'n', 't', 'i', 'c', 'A', 'M', 'D'] from rfl, spells_iff]
    simp only [Amd.decodeCapabilities, Bool.and_eq_true, decide_eq_true_eq, and_assoc]
    rfl
  · exact featureBit_leaf _ CpuidResult.ecx (by decide)
  · exact featureBit_leaf _ CpuidResult.edx (by decide)
  · exact featureBit_leaf _ CpuidResult.edx (by decide)

/-- The Intel detection asks for no more leaves than it may and reads what the processor has. -/
theorem intel_detection : wp cpu.machine cpu.Asks Intel.detectCapabilities
    (fun capabilities _ => cpu.ReadsIntel capabilities) t := by
  apply wp_cpuid (Or.inl rfl)
  intro t
  apply wp_readLeaf fun h => Or.inr (Or.inr (Or.inl ⟨rfl, of_decide_eq_true h⟩))
  intro t
  apply wp_cpuid (Or.inr (Or.inl rfl))
  intro t
  apply wp_readLeaf (extended_available (by decide))
  intro t
  apply wp_readLeaf (extended_available (by decide))
  intro t
  apply cpu.machine_closed.wp_ret asks_none
  constructor
  · rw [show "GenuineIntel" = String.ofList
      ['G', 'e', 'n', 'u', 'i', 'n', 'e', 'I', 'n', 't', 'e', 'l'] from rfl, spells_iff]
    simp only [Intel.decodeCapabilities, Bool.and_eq_true, decide_eq_true_eq, and_assoc]
    rfl
  · exact featureBit_leaf _ CpuidResult.ecx (by decide)
  · exact featureBit_leaf _ CpuidResult.edx (by decide)
  · exact featureBit_leaf _ CpuidResult.edx (by decide)

/-- The merged capabilities. -/
structure Reads (cpu : Cpuid) (detected : Capabilities) : Prop where
  supportedTarget : detected.supportedTarget = true
  amdVendor : detected.amdVendor = true ↔ cpu.Spells "AuthenticAMD"
  intelVendor : detected.intelVendor = true ↔ cpu.Spells "GenuineIntel"
  monitorxMwaitx : detected.monitorxMwaitx = true ↔
    0x80000001 ≤ cpu.extendedMax ∧ (cpu 0x80000001 0).ecx.getLsbD 29 = true
  waitpkg : detected.waitpkg = true ↔ 7 ≤ cpu.basicMax ∧ (cpu 7 0).ecx.getLsbD 5 = true
  invariantTsc : detected.invariantTsc = true ↔ cpu.InvariantTsc
  rdtscp : detected.rdtscp = true ↔ cpu.Rdtscp

/-- The vendor decides which detection runs, and what it reports is what the processor has. -/
theorem detection : wp cpu.machine cpu.Asks detectCapabilities
    (fun detected _ => cpu.Reads detected) t := by
  apply wp_bind
  apply wp_mono amd_detection
  intro amd t hamd
  apply wp_bind
  apply wp_mono intel_detection
  intro intel t hintel
  apply cpu.machine_closed.wp_ret asks_none
  exact {
    supportedTarget := rfl
    amdVendor := hamd.vendor
    intelVendor := hintel.vendor
    monitorxMwaitx := hamd.monitorxMwaitx
    waitpkg := hintel.waitpkg
    -- Both modules decode the timer bits alike, so it does not matter whose are taken.
    invariantTsc := by
      cases amd.amdVendor with
      | true => exact hamd.invariantTsc
      | false => exact hintel.invariantTsc
    rdtscp := by
      cases amd.amdVendor with
      | true => exact hamd.rdtscp
      | false => exact hintel.rdtscp }

theorem Detects.reads {detected : Capabilities} (h : cpu.Detects detected) :
    cpu.Reads detected := by
  obtain ⟨t, hr⟩ := h
  exact (detection _ _ hr).2 detected rfl

/-- No processor spells both names: they differ in the first register. -/
theorem not_both_vendors : ¬ (cpu.Spells "AuthenticAMD" ∧ cpu.Spells "GenuineIntel") := by
  rintro ⟨hamd, hintel⟩
  have h := hamd.symm.trans hintel
  revert h
  decide

/-- The AMD backend is selected on exactly the processors that have `mwaitx`. -/
theorem Reads.selects_amd {detected : Capabilities} (h : cpu.Reads detected) :
    selectBackend detected = .ok .amdMwaitx ↔ cpu.Mwaitx := by
  have hvendors : ¬ (detected.amdVendor = true ∧ detected.intelVendor = true) := by
    rw [h.amdVendor, h.intelVendor]
    exact not_both_vendors
  unfold Mwaitx
  rw [← h.amdVendor, ← h.monitorxMwaitx]
  unfold selectBackend
  rw [h.supportedTarget]
  revert hvendors
  cases detected.amdVendor <;> cases detected.intelVendor <;> cases detected.monitorxMwaitx <;>
    cases detected.waitpkg <;> decide

/-- The Intel backend is selected on exactly the processors that have `umwait`. -/
theorem Reads.selects_intel {detected : Capabilities} (h : cpu.Reads detected) :
    selectBackend detected = .ok .intelUmwait ↔ cpu.Umwait := by
  have hvendors : ¬ (detected.amdVendor = true ∧ detected.intelVendor = true) := by
    rw [h.amdVendor, h.intelVendor]
    exact not_both_vendors
  unfold Umwait
  rw [← h.intelVendor, ← h.waitpkg]
  unfold selectBackend
  rw [h.supportedTarget]
  revert hvendors
  cases detected.amdVendor <;> cases detected.intelVendor <;> cases detected.monitorxMwaitx <;>
    cases detected.waitpkg <;> decide

theorem Reads.selects_none {detected : Capabilities} (h : cpu.Reads detected) :
    (∃ reason, selectBackend detected = .error reason) ↔ ¬ cpu.Mwaitx ∧ ¬ cpu.Umwait := by
  rw [← h.selects_amd, ← h.selects_intel]
  rcases selectBackend detected with reason | backend
  · simp
  · cases backend <;> simp

theorem Reads.shared_timer {detected : Capabilities} (h : cpu.Reads detected) :
    requireSharedTimerCapabilities detected = .ok () ↔ cpu.InvariantTsc ∧ cpu.Rdtscp := by
  rw [← h.invariantTsc, ← h.rdtscp]
  unfold requireSharedTimerCapabilities
  cases detected.invariantTsc <;> cases detected.rdtscp <;> decide

/-- The two gates of the preflight together. -/
theorem Reads.usable_iff {detected : Capabilities} (h : cpu.Reads detected)
    (backend : HardwareBackend) :
    selectBackend detected = .ok backend ∧ requireSharedTimerCapabilities detected = .ok () ↔
      cpu.Usable backend := by
  rw [h.shared_timer]
  cases backend with
  | amdMwaitx =>
    rw [h.selects_amd]
    rfl
  | intelUmwait =>
    rw [h.selects_intel]
    rfl

/-- The vendor module, asked again, comes to the same conclusion. -/
theorem redetection_usable (backend : HardwareBackend) : wp cpu.machine cpu.Asks
    (redetection backend) (fun usable _ => usable = true ↔ cpu.Usable backend) t := by
  cases backend with
  | amdMwaitx =>
    apply wp_bind
    apply wp_mono amd_detection
    intro capabilities t h
    apply cpu.machine_closed.wp_ret asks_none
    simp only [Amd.timerCalibrationIsUsable, Bool.and_eq_true, h.vendor, h.monitorxMwaitx,
      h.invariantTsc, h.rdtscp, Usable, Mwaitx, and_assoc]
  | intelUmwait =>
    apply wp_bind
    apply wp_mono intel_detection
    intro capabilities t h
    apply cpu.machine_closed.wp_ret asks_none
    simp only [Intel.timerCalibrationIsUsable, Bool.and_eq_true, h.vendor, h.waitpkg,
      h.invariantTsc, h.rdtscp, Usable, Umwait, and_assoc]

end Cpuid

/-- A call of one backend is allowed where that backend is. -/
theorem PreflightOp.mem_backends {backend : HardwareBackend} {op : PreflightOp}
    (h : op.belongsTo backend = true) {backends : List HardwareBackend}
    (hop : op.backends = some backends) : backend ∈ backends := by
  have hcpuid : ∀ leaf subleaf, op ≠ .cpuid leaf subleaf := by
    rintro _ _ rfl
    exact nomatch h
  have hall : (op.backends.all fun backends => backends.contains backend) = true := by
    cases op with
    | cpuid leaf subleaf => exact absurd rfl (hcpuid leaf subleaf)
    | _ => exact h
  rw [hop] at hall
  simpa using hall

section Makes

variable (backend : HardwareBackend)

theorem makes_sampleTscFrequencyOnce :
    sampleTscFrequencyOnce.Makes fun op => op.belongsTo backend = true := by
  have hread : PreflightOp.rdtscp.belongsTo backend = true := by
    cases backend with
    | amdMwaitx => rfl
    | intelUmwait => rfl
  refine ⟨rfl, fun started => ⟨hread, fun first => ⟨⟨rfl, fun now => ?_⟩, fun _ => ⟨hread,
    fun last => ⟨rfl, fun _ => trivial⟩⟩⟩⟩⟩
  exact .ite ⟨rfl, fun _ => trivial⟩ trivial

theorem makes_collectTscFrequencies (attempts : ℕ) (samples : List ℕ) :
    (collectTscFrequencies sampleTscFrequencyOnce attempts samples).Makes
      fun op => op.belongsTo backend = true := by
  induction attempts generalizing samples with
  | zero => trivial
  | succ attempts ih =>
    apply (makes_sampleTscFrequencyOnce backend).bind
    intro sample
    cases sample with
    | none => exact ih samples
    | some sample => exact .ite trivial (ih _)

end Makes

theorem makes_waiting {S : PreflightOp → Prop} {p : WaitProg ℕ α}
    (hp : p.Makes fun op => S (.wait op)) : (waiting p).Makes S := by
  refine Prog.Makes.handle ?_ hp
  exact fun op hop => ⟨hop, fun _ => trivial⟩

/-- Calls of a wait with a configuration belong to its backend. -/
theorem makes_hardwareWaitUntimed (config : HardwareConfig) (atomic : WaitableAtomic)
    (expected : ℕ) : (hardwareWaitUntimed config atomic expected).Makes
      fun op => (PreflightOp.wait op).belongsTo config.backend = true := by
  cases config with
  | amd config =>
    exact ⟨rfl, fun v => .ite trivial ⟨rfl, fun _ => ⟨rfl, fun v => .ite trivial ⟨rfl, fun _ =>
      ⟨rfl, fun v => .ite trivial trivial⟩⟩⟩⟩⟩
  | intel config =>
    exact ⟨rfl, fun v => .ite trivial ⟨rfl, fun _ => ⟨rfl, fun v => .ite trivial ⟨rfl, fun _ =>
      ⟨rfl, fun _ => ⟨rfl, fun v => .ite trivial trivial⟩⟩⟩⟩⟩⟩

theorem makes_preflightWaitOnce (config : HardwareConfig) (target : WaitableAtomic) :
    (preflightWaitOnce config target).Makes
      fun op => (PreflightOp.wait op).belongsTo config.backend = true := by
  refine ⟨rfl, fun v => .ite trivial ?_⟩
  cases config with
  | amd config =>
    exact ⟨rfl, fun _ => ⟨rfl, fun v => .ite trivial ⟨rfl, fun _ => ⟨rfl, fun v => .ite trivial
      ⟨rfl, fun _ => ⟨rfl, fun _ => trivial⟩⟩⟩⟩⟩⟩
  | intel config =>
    exact ⟨rfl, fun _ => ⟨rfl, fun v => .ite trivial ⟨rfl, fun _ => ⟨rfl, fun v => .ite trivial
      ⟨rfl, fun _ => ⟨rfl, fun _ => ⟨rfl, fun _ => trivial⟩⟩⟩⟩⟩⟩⟩

theorem makes_measureBaselines (config : HardwareConfig) (n : ℕ) :
    (measureBaselines config n).Makes fun op => op.belongsTo config.backend = true := by
  induction n with
  | zero => trivial
  | succ n ih =>
    refine ⟨rfl, fun started => ?_⟩
    apply (makes_waiting (makes_hardwareWaitUntimed config baselineTarget 0)).bind
    exact fun _ => ⟨rfl, fun finished => ih.bind fun rest => trivial⟩

theorem makes_preflightTrial (config : HardwareConfig) (baselineWait : ℕ) :
    (preflightTrial config baselineWait).Makes
      fun op => op.belongsTo config.backend = true := by
  refine ⟨rfl, fun _ => ⟨rfl, fun started => ?_⟩⟩
  apply (makes_waiting (makes_preflightWaitOnce config preflightTarget)).bind
  exact fun observed => ⟨rfl, fun waitFinished => ⟨rfl, fun publishedAt => trivial⟩⟩

theorem makes_storeTrials (config : HardwareConfig) (baselineWait n : ℕ) (counts : TrialCounts) :
    (storeTrials config baselineWait n counts).Makes
      fun op => op.belongsTo config.backend = true := by
  induction n generalizing counts with
  | zero => trivial
  | succ n ih =>
    apply (makes_preflightTrial config baselineWait).bind
    exact fun evidence => .ite trivial (ih _)

theorem makes_functionalPreflight (config : HardwareConfig) :
    (functionalPreflight config).Makes fun op => op.belongsTo config.backend = true := by
  have hlift : ∀ {α : Type} {p : PreflightProg α},
      p.Makes (fun op => op.belongsTo config.backend = true) →
      (unfailing p).Makes fun op => op.belongsTo config.backend = true :=
    fun hp => Prog.Makes.bind hp fun _ => trivial
  apply (hlift (makes_measureBaselines config preflightBaselineAttempts)).bind
  intro baselines
  apply Fallible.Makes.ite (Fallible.makes_throw _)
  apply (hlift (makes_storeTrials config _ preflightStoreAttempts ⟨0, 0, 0⟩)).bind
  exact fun counts => trivial

namespace Cpuid

variable {cpu : Cpuid} {t : List (Event PreflightOp PreflightAns)}

/-- Where the processor stands at an instruction of some backends, it can be used by one. -/
def Gate (cpu : Cpuid) (o : Option PreflightOp) (_ : List (Event PreflightOp PreflightAns)) :
    Prop :=
  ∀ op backends, o = some op → op.backends = some backends → ∃ b ∈ backends, cpu.Usable b

theorem gate_none : cpu.Gate none t := fun _ _ h => nomatch h

/-- Detection executes no such instruction. -/
theorem Asks.gate {o : Option PreflightOp} (h : cpu.Asks o t) : cpu.Gate o t := by
  intro op backends hop hbackends
  obtain ⟨leaf, rfl, _⟩ := h op hop
  exact nomatch hbackends

theorem gate_of_usable {backend : HardwareBackend} (h : cpu.Usable backend) (op : PreflightOp)
    (hop : op.belongsTo backend = true) : cpu.Gate (some op) t := by
  rintro _ backends ⟨⟩ hbackends
  exact ⟨backend, PreflightOp.mem_backends hop hbackends, h⟩

/-- Sampling starts behind the vendor's own detection only. -/
theorem calibration_gate (backend : HardwareBackend) :
    wp cpu.machine (fun o t => cpu.Gate o t ∧ ∀ op, o = some op → op.backends.isSome = true →
      cpu.Usable backend) (vendorCalibration backend) (fun _ _ => True) t := by
  rw [vendorCalibration_eq]
  apply wp_bind
  apply wp_mono (wp_weaken _ (redetection_usable backend))
  · intro usable t husable
    cases usable with
    | false => exact cpu.machine_closed.wp_ret ⟨gate_none, fun _ h => nomatch h⟩ trivial
    | true =>
      have hcpu := husable.mp rfl
      apply cpu.machine_closed.wp_makes (S := fun op => op.belongsTo backend = true)
      · exact fun op t hop => ⟨gate_of_usable hcpu op hop, fun _ _ _ => hcpu⟩
      · exact fun t => ⟨gate_none, fun _ h => nomatch h⟩
      · exact (makes_collectTscFrequencies backend _ []).bind fun samples => trivial
  · intro o t hasks
    refine ⟨hasks.gate, fun op hop hbackends => ?_⟩
    obtain ⟨leaf, rfl, _⟩ := hasks op hop
    exact nomatch hbackends

/-- A configuration is made for a usable backend. -/
theorem configuration_gate {detected : Capabilities} (h : cpu.Reads detected) :
    wp cpu.machine cpu.Gate (prepareHardwareConfig detected Intel.userspaceTscIsEnabled
      Amd.calibrateTimerHz Intel.calibrateTimerHz).run
      (fun r _ => ∀ config, r = .ok config → cpu.Usable config.backend) t := by
  have hfail : ∀ (e : HardwareWaitError) t, wp cpu.machine cpu.Gate
      (.ret (.error e) : PreflightProg (Except HardwareWaitError HardwareConfig))
      (fun r _ => ∀ config, r = .ok config → cpu.Usable config.backend) t :=
    fun e t => cpu.machine_closed.wp_ret gate_none fun _ h => nomatch h
  unfold prepareHardwareConfig
  apply wp_andThen
  apply cpu.machine_closed.wp_ret gate_none
  cases hselect : selectBackend detected with
  | error reason => exact hfail _ t
  | ok backend =>
    apply wp_andThen
    apply cpu.machine_closed.wp_ret gate_none
    cases hrequire : requireSharedTimerCapabilities detected with
    | error e => exact hfail _ t
    | ok _ =>
      have husable := (h.usable_iff backend).mp ⟨hselect, hrequire⟩
      rw [unfailing, lift_bind_run]
      apply wp_bind
      apply cpu.machine_closed.wp_call
      · rintro _ backends ⟨⟩ hbackends
        exact nomatch hbackends
      · intro answer t _
        apply cpu.machine_closed.wp_ret gate_none
        have hcalibrate : ∀ f : Option ℕ → Preflight HardwareConfig,
            (∀ hz t, wp cpu.machine cpu.Gate (f hz).run
              (fun r _ => ∀ config, r = .ok config → cpu.Usable config.backend) t) →
            wp cpu.machine cpu.Gate (unfailing (vendorCalibration backend) >>= f).run
              (fun r _ => ∀ config, r = .ok config → cpu.Usable config.backend) t := by
          intro f hf
          rw [unfailing, lift_bind_run]
          apply wp_bind
          apply wp_mono (wp_weaken (fun _ _ h => h.1) (calibration_gate backend))
          exact fun hz t _ => hf hz t
        split
        · exact hfail _ t
        · cases backend with
          | amdMwaitx =>
            apply hcalibrate
            intro hz t
            cases hz with
            | none => exact hfail _ t
            | some timerHz =>
              apply cpu.machine_closed.wp_ret gate_none
              rintro _ ⟨⟩
              exact husable
          | intelUmwait =>
            apply hcalibrate
            intro hz t
            cases hz with
            | none => exact hfail _ t
            | some timerHz =>
              apply cpu.machine_closed.wp_ret gate_none
              rintro _ ⟨⟩
              exact husable

/-- The whole preflight, whatever its clocks, its counters and its helpers do. -/
theorem preflight_gate :
    wp cpu.machine cpu.Gate runHardwarePreflight.run (fun _ _ => True) t := by
  apply wp_andThen
  rw [unfailing, lift_bind_run]
  apply wp_bind
  apply wp_mono (wp_weaken (fun _ _ h => h.gate) detection)
  intro detected t hreads
  apply wp_mono (configuration_gate hreads)
  intro r t husable
  cases r with
  | error e => exact cpu.machine_closed.wp_ret gate_none trivial
  | ok config =>
    apply wp_andThen
    apply wp_mono
    · apply cpu.machine_closed.wp_makes (S := fun op => op.belongsTo config.backend = true)
      · exact fun op t hop => gate_of_usable (husable config rfl) op hop
      · exact fun t => gate_none
      · exact makes_functionalPreflight config
    · intro r t _
      cases r with
      | error e => exact cpu.machine_closed.wp_ret gate_none trivial
      | ok report => exact cpu.machine_closed.wp_ret gate_none trivial

theorem readLeaf_loopFree (available : Bool) (leaf : BitVec 32) :
    (readLeaf available leaf).LoopFree :=
  .ite (fun _ => trivial) trivial

/-- The detection ends on every processor. -/
theorem detects_total (cpu : Cpuid) : ∃ detected, cpu.Detects detected := by
  have hfree : detectCapabilities.LoopFree := by
    have hamd : Amd.detectCapabilities.LoopFree := fun _ _ =>
      (readLeaf_loopFree _ _).bind fun _ => (readLeaf_loopFree _ _).bind fun _ => trivial
    have hintel : Intel.detectCapabilities.LoopFree := fun _ =>
      (readLeaf_loopFree _ _).bind fun _ _ => (readLeaf_loopFree _ _).bind fun _ =>
        (readLeaf_loopFree _ _).bind fun _ => trivial
    exact hamd.bind fun _ => hintel.bind fun _ => trivial
  have hanswers : ∀ op t, True → ∃ x t', cpu.machine.act op t x t' ∧ True := by
    intro op t _
    cases op with
    | cpuid leaf subleaf => exact ⟨cpu leaf subleaf, _, ⟨rfl, rfl⟩, trivial⟩
    | prctlGetTsc => exact ⟨(0, 0), _, ⟨rfl, trivial⟩, trivial⟩
    | rdtscp => exact ⟨(0, 0, 0), _, ⟨rfl, trivial⟩, trivial⟩
    | instantNow => exact ⟨(0 : ℕ), _, ⟨rfl, trivial⟩, trivial⟩
    | spinLoop => exact ⟨(), _, ⟨rfl, trivial⟩, trivial⟩
    | wait op => exact ⟨(default : WaitAns ℕ op), _, ⟨rfl, trivial⟩, trivial⟩
    | startTrial _ => exact ⟨(), _, ⟨rfl, trivial⟩, trivial⟩
    | receive => exact ⟨(none : Option ℕ), _, ⟨rfl, trivial⟩, trivial⟩
  obtain ⟨detected, t, hr⟩ := hfree.completes hanswers trivial
  exact ⟨detected, t, hr⟩

end Cpuid

def slowest (samples : List ℕ) : ℕ := (samples.insertionSort (· ≤ ·)).getD 0 0

def fastest (samples : List ℕ) : ℕ :=
  (samples.insertionSort (· ≤ ·)).getD (timerCalibrationSamples - 1) 0

theorem conservativeTimerHz_eq_none {samples : List ℕ} : conservativeTimerHz samples = none ↔
    spreadTooWide (slowest samples) (fastest samples) = true ∨
      lowerBoundHz (slowest samples) = 0 := by
  unfold conservativeTimerHz slowest fastest
  dsimp only
  split
  · next h => simp only [h, true_or]
  · next h =>
    split
    · next hpos => simp only [h, false_or, Bool.false_eq_true, reduceCtorEq, false_iff]; omega
    · next hpos => simp only [h, false_or, Bool.false_eq_true, true_iff]; omega

/-- Three samples could not be had, they lie too far apart, or the bound they give is zero. -/
def SamplingFailed (samples : Option (List ℕ)) : Prop :=
  ∀ s, samples = some s →
    spreadTooWide (slowest s) (fastest s) = true ∨ lowerBoundHz (slowest s) = 0

/-- A usable backend calibrates to nothing only when the sampling has failed. -/
theorem calibration_none {cpu : Cpuid} {backend : HardwareBackend} (husable : cpu.Usable backend)
    {t t' : List (Event PreflightOp PreflightAns)}
    (hr : Reach cpu.machine (vendorCalibration backend, t) (.ret none, t')) :
    ∃ samples t₁, Reach cpu.machine
      (collectTscFrequencies sampleTscFrequencyOnce timerCalibrationAttempts [], t₁)
      (.ret samples, t') ∧ SamplingFailed samples := by
  rw [vendorCalibration_eq] at hr
  obtain ⟨usable, t₁, hdetect, hr⟩ := reach_bind_ret hr
  have htrue : usable = true := ((Cpuid.redetection_usable backend _ _ hdetect).2 usable rfl).mpr
    husable
  subst htrue
  obtain ⟨samples, t₂, hcollect, hr⟩ := reach_bind_ret hr
  obtain ⟨hnone, rfl⟩ := cpu.machine_closed.reach_ret hr
  refine ⟨samples, t₁, hcollect, ?_⟩
  rintro s rfl
  exact conservativeTimerHz_eq_none.mp hnone.symm

/-- The gates agree, on every processor. Detection reads only leaves that the reported maxima
admit; it selects a backend exactly where the vendor name and the feature bit say so; where
both gates of the preflight are open the vendor's own detection agrees, so that a calibration
fails by its samples only; and no privileged instruction is reached otherwise. -/
theorem capability_gates_agree (cpu : Cpuid) :
    (∃ detected, cpu.Detects detected) ∧
    (∀ q t, Reach cpu.machine (detectCapabilities, []) (q, t) → ∀ op, q.head = some op →
      ∃ leaf, op = .cpuid leaf 0 ∧ cpu.Permitted leaf) ∧
    (∀ detected, cpu.Detects detected →
      ¬ (detected.amdVendor = true ∧ detected.intelVendor = true) ∧
      (selectBackend detected = .ok .amdMwaitx ↔ cpu.Spells "AuthenticAMD" ∧
        0x80000001 ≤ cpu.extendedMax ∧ (cpu 0x80000001 0).ecx.getLsbD 29 = true) ∧
      (selectBackend detected = .ok .intelUmwait ↔ cpu.Spells "GenuineIntel" ∧
        7 ≤ cpu.basicMax ∧ (cpu 7 0).ecx.getLsbD 5 = true) ∧
      ((∃ reason, selectBackend detected = .error reason) ↔ ¬ cpu.Mwaitx ∧ ¬ cpu.Umwait) ∧
      ∀ backend, selectBackend detected = .ok backend →
        requireSharedTimerCapabilities detected = .ok () →
        (∀ t q t', Reach cpu.machine (redetection backend, t) (q, t') →
          ∀ usable, q = .ret usable → usable = true) ∧
        ∀ t t', Reach cpu.machine (vendorCalibration backend, t) (.ret none, t') →
          ∃ samples t₁, Reach cpu.machine
            (collectTscFrequencies sampleTscFrequencyOnce timerCalibrationAttempts [], t₁)
            (.ret samples, t') ∧ SamplingFailed samples) ∧
    (∀ backend t q t', Reach cpu.machine (vendorCalibration backend, t) (q, t') →
      ∀ op, q.head = some op → op.backends.isSome = true →
        ∃ detected, cpu.Detects detected ∧ selectBackend detected = .ok backend ∧
          requireSharedTimerCapabilities detected = .ok ()) ∧
    ∀ q t, Reach cpu.machine (runHardwarePreflight.run, []) (q, t) →
      ∀ op backends, q.head = some op → op.backends = some backends →
        ∃ detected, cpu.Detects detected ∧ ∃ backend ∈ backends,
          selectBackend detected = .ok backend ∧
            requireSharedTimerCapabilities detected = .ok () := by
  obtain ⟨known, hknown⟩ := cpu.detects_total
  refine ⟨⟨known, hknown⟩, ?_, ?_, ?_, ?_⟩
  · intro q t hr
    exact (Cpuid.detection q t hr).1
  · intro detected hdetects
    have hreads := hdetects.reads
    refine ⟨?_, hreads.selects_amd, hreads.selects_intel, hreads.selects_none, ?_⟩
    · rw [hreads.amdVendor, hreads.intelVendor]
      exact Cpuid.not_both_vendors
    · intro backend hselect hrequire
      have husable := (hreads.usable_iff backend).mp ⟨hselect, hrequire⟩
      constructor
      · rintro t _ t' hr usable rfl
        exact ((Cpuid.redetection_usable backend _ _ hr).2 usable rfl).mpr husable
      · intro t t' hr
        exact calibration_none husable hr
  · intro backend t q t' hr op hop hbackends
    have husable := ((Cpuid.calibration_gate backend q t' hr).1).2 op hop hbackends
    exact ⟨known, hknown, (hknown.reads.usable_iff backend).mpr husable⟩
  · intro q t hr op backends hop hbackends
    obtain ⟨backend, hmem, husable⟩ := (Cpuid.preflight_gate q t hr).1 op backends hop hbackends
    exact ⟨known, hknown, backend, hmem, (hknown.reads.usable_iff backend).mpr husable⟩

/-- Everything but the wait instructions of the other vendor. -/
def sampleCpu : Cpuid := fun leaf _ =>
  if leaf = 0 then ⟨0x10, Amd.vendorEbx, Amd.vendorEcx, Amd.vendorEdx⟩
  else if leaf = extendedCpuidBase then ⟨0x80000008, 0, 0, 0⟩
  else ⟨0, 0, 0xffffffff, 0xffffffff⟩

def silentCpu : Cpuid := fun _ _ => ⟨0, 0, 0, 0⟩

/-- The clock advances by a second with every reading, the counter by one tick. -/
def stillCounter : Handler PreflightOp PreflightAns (List (Event PreflightOp PreflightAns)) :=
  fun op t =>
    let x : PreflightAns op := match op with
      | .cpuid leaf subleaf => sampleCpu leaf subleaf
      | .prctlGetTsc => (0, 1)
      | .rdtscp => (0, BitVec.ofNat 32 (t.countP fun e => e.1 = .rdtscp), 0)
      | .instantNow => 1000000000 * t.countP fun e => e.1 = .instantNow
      | .spinLoop => ()
      | .wait op => (default : WaitAns ℕ op)
      | .startTrial _ => ()
      | .receive => (none : Option ℕ)
    (x, t ++ [⟨op, x⟩])

theorem stillCounter_acts (op : PreflightOp) (t : List (Event PreflightOp PreflightAns)) :
    Cpuid.machine sampleCpu |>.act op t (stillCounter op t).1 (stillCounter op t).2 := by
  refine ⟨rfl, ?_⟩
  cases op with
  | cpuid leaf subleaf => rfl
  | _ => trivial

/-- The two gates are open and three equal samples pass the spread test, but eighty percent of
one hertz is none; and the leaf that reports the extended maximum lies above a maximum of zero. -/
theorem calibration_bound_vanishes :
    (∃ cpu detected t₁ t, Cpuid.Detects cpu detected ∧
      selectBackend detected = .ok .amdMwaitx ∧
      requireSharedTimerCapabilities detected = .ok () ∧
      Reach cpu.machine (vendorCalibration .amdMwaitx, []) (.ret none, t) ∧
      Reach cpu.machine
        (collectTscFrequencies sampleTscFrequencyOnce timerCalibrationAttempts [], t₁)
        (.ret (some [1, 1, 1]), t) ∧
      spreadTooWide (slowest [1, 1, 1]) (fastest [1, 1, 1]) = false) ∧
    ∃ (cpu : Cpuid) (q : PreflightProg Capabilities) (t : List (Event PreflightOp PreflightAns)),
      Reach cpu.machine (detectCapabilities, []) (q, t) ∧
      q.head = some (.cpuid 0x80000000 0) ∧ cpu.extendedMax < 0x80000000 := by
  constructor
  · have hrun : (((redetection .amdMwaitx).bind fun usable =>
        (collectTscFrequencies sampleTscFrequencyOnce timerCalibrationAttempts []).bind
          fun samples => .ret (usable, samples)).run stillCounter 60 []).map Prod.fst =
        some (true, some [1, 1, 1]) := by
      decide +kernel
    obtain ⟨⟨r, t⟩, hrun, rfl⟩ := Option.map_eq_some_iff.mp hrun
    obtain ⟨usable, t₁, hdetect, hr⟩ := reach_bind_ret
      (reach_of_run (M := sampleCpu.machine) stillCounter_acts _ _ _ hrun)
    obtain ⟨samples, t₂, hcollect, hr⟩ := reach_bind_ret hr
    obtain ⟨heq, rfl⟩ := sampleCpu.machine_closed.reach_ret hr
    obtain ⟨rfl, rfl⟩ := Prod.mk.inj heq
    obtain ⟨detected, hdetects⟩ := sampleCpu.detects_total
    have husable := ((Cpuid.redetection_usable .amdMwaitx _ _ hdetect).2 true rfl).mp rfl
    have hgates := (hdetects.reads.usable_iff .amdMwaitx).mpr husable
    refine ⟨sampleCpu, detected, t₁, t, hdetects, hgates.1, hgates.2, ?_, hcollect, by decide⟩
    have hnone : conservativeTimerHz [1, 1, 1] = none := by decide
    have hbound := hcollect.bind fun samples => .ret (samples.bind conservativeTimerHz)
    rw [Prog.ret_bind, Option.bind_some, hnone] at hbound
    rw [vendorCalibration_eq]
    exact (hdetect.bind _).trans hbound
  · exact ⟨silentCpu, _, [⟨.cpuid 0 0, ⟨0, 0, 0, 0⟩⟩], .single (.call ⟨rfl, rfl⟩), rfl, by decide⟩

end Snoozer
