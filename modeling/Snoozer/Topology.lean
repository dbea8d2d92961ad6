import Snoozer.Results
import Mathlib.Data.Finset.Card

/-! The CPU roles of `benches/support/platform.rs`: how they are chosen among the online CPUs, and
what is asked of them. -/
namespace Snoozer.WakeLatency
open Results

def cpuSetBits : ℕ := 1024

structure CpuInfo where
  cpu : ℕ
  package : ℕ
  core : ℕ
  siblings : Std.TreeSet ℕ

/-- The online CPUs, as a `BTreeMap`. -/
abbrev Cpus := Std.TreeMap ℕ CpuInfo

/-- `values`, in the order of the keys. -/
def Cpus.infos (cpus : Cpus) : List CpuInfo := cpus.toList.map Prod.snd

structure Roles where
  waiter : ℕ
  victim : ℕ
  producer : ℕ
  controller : ℕ
  deriving DecidableEq, Repr

/-- An error that is reported, or the panic of an index that is missing. -/
inductive TopologyError where
  | reported (text : String)
  | panicked
  deriving DecidableEq, Repr

def sameCore (left right : CpuInfo) : Bool :=
  left.package == right.package && left.core == right.core

/-- `ok_or`. -/
def okOr {α : Type} (text : String) : Option α → Except TopologyError α
  | none => .error (.reported text)
  | some a => .ok a

def findWaiter (cpus : Cpus) : Option CpuInfo :=
  cpus.infos.find? fun candidate => decide (2 ≤ candidate.siblings.size)

def findVictim (cpus : Cpus) (waiter : CpuInfo) : Option ℕ :=
  waiter.siblings.toList.find? fun cpu => cpu != waiter.cpu && cpus.contains cpu

def findProducer (cpus : Cpus) (waiter : CpuInfo) : Option CpuInfo :=
  cpus.infos.find? fun candidate =>
    candidate.package == waiter.package && !sameCore candidate waiter

def findController (cpus : Cpus) (waiter producer : CpuInfo) : Option CpuInfo :=
  cpus.infos.find? fun candidate =>
    candidate.package == waiter.package && !sameCore candidate waiter &&
      !sameCore candidate producer

def chooseRoles (cpus : Cpus) : Except TopologyError Roles := do
  let waiter ← okOr "no online SMT sibling pair was found" (findWaiter cpus)
  let victim ← okOr "the waiter sibling is not online" (findVictim cpus waiter)
  let producer ← okOr "no separate physical core is available for the producer"
    (findProducer cpus waiter)
  let controller ← okOr "no third physical core is available for the controller"
    (findController cpus waiter producer)
  return ⟨waiter.cpu, victim, producer.cpu, controller.cpu⟩

structure Topology where
  roles : Roles
  cpus : Cpus

def Topology.selected (topology : Topology) : List ℕ :=
  [topology.roles.waiter, topology.roles.victim, topology.roles.producer,
    topology.roles.controller]

/-- The loop over the selected CPUs, from those that `assigned` holds on. -/
def checkSelected (cpus : Cpus) : List ℕ → Finset ℕ → Except TopologyError Unit
  | [], _ => .ok ()
  | cpu :: rest, assigned =>
    if cpuSetBits ≤ cpu then
      .error (.reported s!"CPU {cpu} exceeds the Linux affinity mask limit")
    else if !cpus.contains cpu then
      .error (.reported s!"CPU {cpu} is not online in the selected sysfs tree")
    else if cpu ∈ assigned then
      .error (.reported s!"CPU {cpu} is assigned to more than one role")
    else
      checkSelected cpus rest (insert cpu assigned)

/-- `self.cpus[&cpu]`. -/
def Cpus.index (cpus : Cpus) (cpu : ℕ) : Except TopologyError CpuInfo :=
  match cpus[cpu]? with
  | none => .error .panicked
  | some info => .ok info

def checkCores (waiter victim producer controller : CpuInfo) : Except TopologyError Unit :=
  if !sameCore waiter victim then
    .error (.reported "waiter and victim must be SMT siblings")
  else if [victim, producer, controller].any fun cpu => cpu.package != waiter.package then
    .error (.reported "all benchmark roles must use one physical CPU package")
  else if sameCore waiter producer || sameCore waiter controller ||
      sameCore producer controller then
    .error (.reported
      "producer and controller must each use a physical core separate from the waiter")
  else
    .ok ()

def Topology.validate (topology : Topology) : Except TopologyError Unit := do
  checkSelected topology.cpus topology.selected ∅
  let waiter ← topology.cpus.index topology.roles.waiter
  let victim ← topology.cpus.index topology.roles.victim
  let producer ← topology.cpus.index topology.roles.producer
  let controller ← topology.cpus.index topology.roles.controller
  checkCores waiter victim producer controller

/-- `discover`, from the inventory on. -/
def Topology.discover (overrides : Option Roles) (cpus : Cpus) : Except TopologyError Topology := do
  let roles ← overrides.elim (chooseRoles cpus) .ok
  let topology : Topology := ⟨roles, cpus⟩
  topology.validate
  return topology

theorem sameCore_iff {left right : CpuInfo} :
    sameCore left right = true ↔ left.package = right.package ∧ left.core = right.core := by
  simp only [sameCore, Bool.and_eq_true, beq_iff_eq]

theorem sameCore_eq_false {left right : CpuInfo} (h : left.package = right.package) :
    sameCore left right = false ↔ left.core ≠ right.core := by
  rw [← Bool.not_eq_true, sameCore_iff]
  exact not_congr (and_iff_right h)

/-- Four online CPUs of one package: the waiter and the victim on one core, the producer and the
controller on one further core each. -/
structure Placed (roles : Roles) (cpus : Cpus) (waiter victim producer controller : CpuInfo) :
    Prop where
  waiterOnline : cpus[roles.waiter]? = some waiter
  victimOnline : cpus[roles.victim]? = some victim
  producerOnline : cpus[roles.producer]? = some producer
  controllerOnline : cpus[roles.controller]? = some controller
  distinct : [roles.waiter, roles.victim, roles.producer, roles.controller].Nodup
  onePackage : victim.package = waiter.package ∧ producer.package = waiter.package ∧
    controller.package = waiter.package
  siblings : victim.core = waiter.core
  furtherCores : producer.core ≠ waiter.core ∧ controller.core ≠ waiter.core ∧
    controller.core ≠ producer.core

theorem contains_iff {cpus : Cpus} {cpu : ℕ} :
    cpus.contains cpu = true ↔ ∃ info : CpuInfo, cpus[cpu]? = some info := by
  rw [Std.TreeMap.contains_eq_isSome_getElem?, Option.isSome_iff_exists]

theorem index_eq_ok {cpus : Cpus} {cpu : ℕ} {info : CpuInfo} :
    cpus.index cpu = .ok info ↔ cpus[cpu]? = some info := by
  unfold Cpus.index
  cases cpus[cpu]? with
  | none => exact ⟨fun h => (nomatch h), fun h => (nomatch h)⟩
  | some found => rw [Except.ok.injEq, Option.some.injEq]

theorem mem_infos {cpus : Cpus} {info : CpuInfo} :
    info ∈ cpus.infos ↔ ∃ cpu : ℕ, cpus[cpu]? = some info := by
  unfold Cpus.infos
  rw [List.mem_map]
  constructor
  · rintro ⟨⟨cpu, found⟩, hmem, rfl⟩
    exact ⟨cpu, Std.TreeMap.mem_toList_iff_getElem?_eq_some.mp hmem⟩
  · rintro ⟨cpu, hcpu⟩
    exact ⟨(cpu, info), Std.TreeMap.mem_toList_iff_getElem?_eq_some.mpr hcpu, rfl⟩

/-- The loop passes exactly over distinct online CPUs within the affinity mask. -/
theorem checkSelected_eq_ok {cpus : Cpus} {selected : List ℕ} {assigned : Finset ℕ} :
    checkSelected cpus selected assigned = .ok () ↔
      (∀ cpu ∈ selected, cpu < cpuSetBits ∧ cpus.contains cpu = true ∧ cpu ∉ assigned) ∧
        selected.Nodup := by
  induction selected generalizing assigned with
  | nil =>
    have hnone : ∀ cpu ∈ ([] : List ℕ),
        cpu < cpuSetBits ∧ cpus.contains cpu = true ∧ cpu ∉ assigned :=
      fun _ h => absurd h List.not_mem_nil
    exact iff_of_true rfl ⟨hnone, List.nodup_nil⟩
  | cons cpu rest ih =>
    rw [checkSelected, guard_eq_ok, guard_eq_ok, guard_eq_ok, ih, List.forall_mem_cons,
      List.nodup_cons, not_le, Bool.not_eq_true', Bool.not_eq_false]
    constructor
    · rintro ⟨hmask, honline, hfresh, hrest, hnodup⟩
      refine ⟨⟨⟨hmask, honline, hfresh⟩, fun c hc => ?_⟩, fun hc => ?_, hnodup⟩
      · obtain ⟨hcmask, hconline, hcfresh⟩ := hrest c hc
        exact ⟨hcmask, hconline, fun h => hcfresh (Finset.mem_insert_of_mem h)⟩
      · exact (hrest cpu hc).2.2 (Finset.mem_insert_self cpu assigned)
    · rintro ⟨⟨⟨hmask, honline, hfresh⟩, hrest⟩, hnot, hnodup⟩
      refine ⟨hmask, honline, hfresh, fun c hc => ?_, hnodup⟩
      obtain ⟨hcmask, hconline, hcfresh⟩ := hrest c hc
      refine ⟨hcmask, hconline, fun h => ?_⟩
      rcases Finset.mem_insert.mp h with rfl | h
      · exact hnot hc
      · exact hcfresh h

/-- The cores pass the check when the victim shares the waiter's core and nobody else does. -/
theorem checkCores_eq_ok {waiter victim producer controller : CpuInfo} :
    checkCores waiter victim producer controller = .ok () ↔
      (victim.package = waiter.package ∧ producer.package = waiter.package ∧
        controller.package = waiter.package) ∧
      victim.core = waiter.core ∧ producer.core ≠ waiter.core ∧
      controller.core ≠ waiter.core ∧ controller.core ≠ producer.core := by
  rw [checkCores, guard_eq_ok, guard_eq_ok, guard_eq_ok]
  simp only [Bool.not_eq_true', Bool.not_eq_false, sameCore_iff, List.any_cons, List.any_nil,
    Bool.or_false, Bool.or_eq_true, bne_iff_ne, ne_eq, not_or, not_not, not_and, and_true]
  constructor
  · rintro ⟨⟨-, hvictim⟩, ⟨hv, hp, hc⟩, ⟨hwp, hwc⟩, hpc⟩
    exact ⟨⟨hv, hp, hc⟩, hvictim.symm, fun h => hwp hp.symm h.symm, fun h => hwc hc.symm h.symm,
      fun h => hpc (hp.trans hc.symm) h.symm⟩
  · rintro ⟨⟨hv, hp, hc⟩, hvictim, hwp, hwc, hpc⟩
    exact ⟨⟨hv.symm, hvictim.symm⟩, ⟨hv, hp, hc⟩, ⟨fun _ h => hwp h.symm, fun _ h => hwc h.symm⟩,
      fun _ h => hpc h.symm⟩

theorem selected_online {topology : Topology} {waiter victim producer controller : CpuInfo}
    (h : Placed topology.roles topology.cpus waiter victim producer controller) {cpu : ℕ}
    (hcpu : cpu ∈ topology.selected) : topology.cpus.contains cpu = true := by
  rw [Topology.selected, List.mem_cons, List.mem_cons, List.mem_cons, List.mem_singleton] at hcpu
  rcases hcpu with rfl | rfl | rfl | rfl
  · exact contains_iff.mpr ⟨waiter, h.waiterOnline⟩
  · exact contains_iff.mpr ⟨victim, h.victimOnline⟩
  · exact contains_iff.mpr ⟨producer, h.producerOnline⟩
  · exact contains_iff.mpr ⟨controller, h.controllerOnline⟩

/-- A topology is valid when its roles are placed on processors that fit a set. -/
theorem validate_eq_ok {topology : Topology} :
    topology.validate = .ok () ↔
      (∀ cpu ∈ topology.selected, cpu < cpuSetBits) ∧
      ∃ waiter victim producer controller,
        Placed topology.roles topology.cpus waiter victim producer controller := by
  unfold Topology.validate
  constructor
  · intro h
    obtain ⟨⟨⟩, hloop, h⟩ := bind_eq_ok.mp h
    obtain ⟨waiter, hw, h⟩ := bind_eq_ok.mp h
    obtain ⟨victim, hv, h⟩ := bind_eq_ok.mp h
    obtain ⟨producer, hp, h⟩ := bind_eq_ok.mp h
    obtain ⟨controller, hc, hcores⟩ := bind_eq_ok.mp h
    obtain ⟨hselected, hnodup⟩ := checkSelected_eq_ok.mp hloop
    obtain ⟨hpackage, hsiblings, hfurther⟩ := checkCores_eq_ok.mp hcores
    have hplaced : Placed topology.roles topology.cpus waiter victim producer controller :=
      ⟨index_eq_ok.mp hw, index_eq_ok.mp hv, index_eq_ok.mp hp, index_eq_ok.mp hc, hnodup,
        hpackage, hsiblings, hfurther⟩
    exact ⟨fun cpu hcpu => (hselected cpu hcpu).1, waiter, victim, producer, controller, hplaced⟩
  · rintro ⟨hmask, waiter, victim, producer, controller, h⟩
    have hloop : checkSelected topology.cpus topology.selected ∅ = .ok () := by
      rw [checkSelected_eq_ok]
      exact ⟨fun cpu hcpu =>
        ⟨hmask cpu hcpu, selected_online h hcpu, Finset.notMem_empty cpu⟩, h.distinct⟩
    have hcores : checkCores waiter victim producer controller = .ok () :=
      checkCores_eq_ok.mpr ⟨h.onePackage, h.siblings, h.furtherCores⟩
    rw [bind_eq_ok]
    refine ⟨(), hloop, bind_eq_ok.mpr ⟨waiter, index_eq_ok.mpr h.waiterOnline, ?_⟩⟩
    refine bind_eq_ok.mpr ⟨victim, index_eq_ok.mpr h.victimOnline, ?_⟩
    refine bind_eq_ok.mpr ⟨producer, index_eq_ok.mpr h.producerOnline, ?_⟩
    exact bind_eq_ok.mpr ⟨controller, index_eq_ok.mpr h.controllerOnline, hcores⟩

theorem checkSelected_not_panicked {cpus : Cpus} {selected : List ℕ} {assigned : Finset ℕ} :
    checkSelected cpus selected assigned ≠ .error .panicked := by
  induction selected generalizing assigned with
  | nil => exact fun h => nomatch h
  | cons cpu rest ih =>
    rw [checkSelected]
    split_ifs with hmask honline hassigned
    · exact fun h => nomatch h
    · exact fun h => nomatch h
    · exact fun h => nomatch h
    · exact ih

theorem index_not_panicked {cpus : Cpus} {cpu : ℕ} (h : cpus.contains cpu = true) :
    cpus.index cpu ≠ .error .panicked := by
  obtain ⟨info, hinfo⟩ := contains_iff.mp h
  rw [index_eq_ok.mpr hinfo]
  exact fun h => nomatch h

/-- The indices that follow the loop are never missing. -/
theorem validate_not_panicked (topology : Topology) : topology.validate ≠ .error .panicked := by
  intro h
  unfold Topology.validate at h
  rcases bind_eq_error h with h | ⟨⟨⟩, hloop, h⟩
  · exact checkSelected_not_panicked h
  have honline : ∀ cpu ∈ topology.selected, topology.cpus.contains cpu = true :=
    fun cpu hcpu => ((checkSelected_eq_ok.mp hloop).1 cpu hcpu).2.1
  rw [Topology.selected, List.forall_mem_cons, List.forall_mem_cons, List.forall_mem_cons,
    List.forall_mem_singleton] at honline
  obtain ⟨hw, hv, hp, hc⟩ := honline
  rcases bind_eq_error h with h | ⟨waiter, -, h⟩
  · exact index_not_panicked hw h
  rcases bind_eq_error h with h | ⟨victim, -, h⟩
  · exact index_not_panicked hv h
  rcases bind_eq_error h with h | ⟨producer, -, h⟩
  · exact index_not_panicked hp h
  rcases bind_eq_error h with h | ⟨controller, -, h⟩
  · exact index_not_panicked hc h
  unfold checkCores at h
  split_ifs at h
  all_goals cases h

/-- Given or chosen, the roles of a discovered topology are placed. -/
theorem discover_placed {overrides : Option Roles} {cpus : Cpus} {topology : Topology}
    (h : Topology.discover overrides cpus = .ok topology) :
    topology.cpus = cpus ∧ ∃ waiter victim producer controller,
      Placed topology.roles cpus waiter victim producer controller := by
  unfold Topology.discover at h
  obtain ⟨roles, -, h⟩ := bind_eq_ok.mp h
  obtain ⟨⟨⟩, hvalid, h⟩ := bind_eq_ok.mp h
  have htopology := pure_eq_ok.mp h
  rw [htopology]
  exact ⟨rfl, (validate_eq_ok.mp hvalid).2⟩

/-- Each CPU under its own number, and within the affinity mask. -/
def Cpus.Keyed (cpus : Cpus) : Prop :=
  ∀ (cpu : ℕ) (info : CpuInfo), cpus[cpu]? = some info → info.cpu = cpu ∧ cpu < cpuSetBits

/-- An online sibling of a CPU has its package and its core. -/
def Cpus.Consistent (cpus : Cpus) : Prop :=
  ∀ info ∈ cpus.infos, ∀ (cpu : ℕ) (sibling : CpuInfo), cpu ∈ info.siblings →
    cpus[cpu]? = some sibling → sibling.package = info.package ∧ sibling.core = info.core

instance (cpus : Cpus) : Decidable cpus.Keyed :=
  decidable_of_iff (∀ entry ∈ cpus.toList, entry.2.cpu = entry.1 ∧ entry.1 < cpuSetBits)
    ⟨fun h cpu info hinfo => h (cpu, info) (Std.TreeMap.mem_toList_iff_getElem?_eq_some.mpr hinfo),
      fun h entry hentry =>
        h entry.1 entry.2 (Std.TreeMap.mem_toList_iff_getElem?_eq_some.mp hentry)⟩

instance (cpus : Cpus) : Decidable cpus.Consistent :=
  decidable_of_iff (∀ info ∈ cpus.infos, ∀ cpu ∈ info.siblings.toList,
      ∀ sibling ∈ cpus[cpu]?, sibling.package = info.package ∧ sibling.core = info.core)
    ⟨fun h info hinfo cpu sibling hcpu hsibling =>
      h info hinfo cpu (Std.TreeSet.mem_toList.mpr hcpu) sibling hsibling,
      fun h info hinfo cpu hcpu sibling hsibling =>
        h info hinfo cpu sibling (Std.TreeSet.mem_toList.mp hcpu) hsibling⟩

/-- The online cores of a package. -/
def Cpus.cores (cpus : Cpus) (package : ℕ) : Finset ℕ :=
  ((cpus.infos.filter fun info => info.package == package).map CpuInfo.core).toFinset

/-- The first CPU that lists two siblings. -/
structure Cpus.FirstPaired (cpus : Cpus) (first : CpuInfo) : Prop where
  online : first ∈ cpus.infos
  paired : 2 ≤ first.siblings.size
  least : ∀ info ∈ cpus.infos, 2 ≤ info.siblings.size → first.cpu ≤ info.cpu

theorem mem_cores {cpus : Cpus} {package core : ℕ} :
    core ∈ cpus.cores package ↔ ∃ info ∈ cpus.infos, info.package = package ∧ info.core = core := by
  simp only [Cpus.cores, List.mem_toFinset, List.mem_map, List.mem_filter, beq_iff_eq, and_assoc]

theorem Cpus.Keyed.getElem {cpus : Cpus} (h : cpus.Keyed) {info : CpuInfo}
    (hinfo : info ∈ cpus.infos) : cpus[info.cpu]? = some info ∧ info.cpu < cpuSetBits := by
  obtain ⟨cpu, hcpu⟩ := mem_infos.mp hinfo
  obtain ⟨heq, hmask⟩ := h cpu info hcpu
  rw [heq]
  exact ⟨hcpu, hmask⟩

theorem Cpus.Keyed.sorted {cpus : Cpus} (h : cpus.Keyed) :
    cpus.infos.Pairwise fun left right => left.cpu < right.cpu := by
  unfold Cpus.infos
  rw [List.pairwise_map]
  have hown : ∀ entry ∈ cpus.toList, entry.2.cpu = entry.1 := fun entry hentry =>
    (h entry.1 entry.2 (Std.TreeMap.mem_toList_iff_getElem?_eq_some.mp hentry)).1
  have hkeys : cpus.toList.Pairwise fun left right => compare left.1 right.1 = .lt :=
    Std.TreeMap.ordered_keys_toList
  refine hkeys.imp_of_mem fun {left right} hleft hright hlt => ?_
  rw [hown left hleft, hown right hright]
  exact Nat.compare_eq_lt.mp hlt

/-- In a list in the order of `key`, what is found has the least key. -/
theorem find?_least {α : Type} {key : α → ℕ} {p : α → Bool} {values : List α} {a : α}
    (hsorted : values.Pairwise fun left right => key left < key right)
    (h : values.find? p = some a) : ∀ b ∈ values, p b = true → key a ≤ key b := by
  intro b hb hp
  obtain ⟨-, before, after, hvalues, hbefore⟩ := List.find?_eq_some_iff_append.mp h
  rw [hvalues] at hb hsorted
  rcases List.mem_append.mp hb with hb | hb
  · have hnot := hbefore b hb
    rw [hp] at hnot
    cases hnot
  · rcases List.mem_cons.mp hb with heq | hb
    · rw [heq]
    · have htail := (List.pairwise_append.mp hsorted).2.1
      exact (List.rel_of_pairwise_cons htail hb).le

theorem findWaiter_eq_none {cpus : Cpus} :
    findWaiter cpus = none ↔ ∀ info ∈ cpus.infos, info.siblings.size < 2 := by
  simp only [findWaiter, List.find?_eq_none, decide_eq_true_eq, not_le]

/-- The waiter is the first processor with a sibling. -/
theorem findWaiter_eq_some {cpus : Cpus} (hkeyed : cpus.Keyed) {waiter : CpuInfo} :
    findWaiter cpus = some waiter ↔ cpus.FirstPaired waiter := by
  have hfirst : ∀ found, findWaiter cpus = some found → cpus.FirstPaired found := by
    intro found h
    have hpaired := List.find?_some h
    refine ⟨List.mem_of_find?_eq_some h, of_decide_eq_true hpaired, fun info hinfo htwo => ?_⟩
    exact find?_least hkeyed.sorted h info hinfo (decide_eq_true htwo)
  constructor
  · exact hfirst waiter
  · intro h
    cases hfind : findWaiter cpus with
    | none =>
      have hcard := findWaiter_eq_none.mp hfind waiter h.online
      exact absurd h.paired (by omega)
    | some found =>
      have hfound := hfirst found hfind
      have hcpu : found.cpu = waiter.cpu :=
        le_antisymm (hfound.least waiter h.online h.paired)
          (h.least found hfound.online hfound.paired)
      have hsame := (hkeyed.getElem hfound.online).1
      rw [hcpu, (hkeyed.getElem h.online).1] at hsame
      exact hsame.symm

theorem findVictim_eq_none {cpus : Cpus} {waiter : CpuInfo} :
    findVictim cpus waiter = none ↔
      ∀ cpu ∈ waiter.siblings, cpu ≠ waiter.cpu → cpus.contains cpu = false := by
  simp only [findVictim, List.find?_eq_none, Std.TreeSet.mem_toList, Bool.and_eq_true, bne_iff_ne,
    not_and, Bool.not_eq_true]

theorem findVictim_eq_some {cpus : Cpus} {waiter : CpuInfo} {victim : ℕ}
    (h : findVictim cpus waiter = some victim) :
    victim ∈ waiter.siblings ∧ victim ≠ waiter.cpu ∧ cpus.contains victim = true := by
  have hmem := Std.TreeSet.mem_toList.mp (List.mem_of_find?_eq_some h)
  have hfound := List.find?_some h
  rw [Bool.and_eq_true, bne_iff_ne] at hfound
  exact ⟨hmem, hfound⟩

theorem findProducer_eq_some {cpus : Cpus} {waiter producer : CpuInfo}
    (h : findProducer cpus waiter = some producer) :
    producer ∈ cpus.infos ∧ producer.package = waiter.package ∧ producer.core ≠ waiter.core := by
  have hfound := List.find?_some h
  rw [Bool.and_eq_true, beq_iff_eq, Bool.not_eq_true'] at hfound
  exact ⟨List.mem_of_find?_eq_some h, hfound.1, (sameCore_eq_false hfound.1).mp hfound.2⟩

theorem findController_eq_some {cpus : Cpus} {waiter producer controller : CpuInfo}
    (hproducer : producer.package = waiter.package)
    (h : findController cpus waiter producer = some controller) :
    controller ∈ cpus.infos ∧ controller.package = waiter.package ∧
      controller.core ≠ waiter.core ∧ controller.core ≠ producer.core := by
  have hfound := List.find?_some h
  rw [Bool.and_eq_true, Bool.and_eq_true, beq_iff_eq, Bool.not_eq_true', Bool.not_eq_true']
    at hfound
  obtain ⟨⟨hpackage, hwaiter⟩, hcore⟩ := hfound
  exact ⟨List.mem_of_find?_eq_some h, hpackage, (sameCore_eq_false hpackage).mp hwaiter,
    (sameCore_eq_false (hpackage.trans hproducer.symm)).mp hcore⟩

theorem findProducer_eq_none {cpus : Cpus} {waiter : CpuInfo} :
    findProducer cpus waiter = none ↔ cpus.cores waiter.package ⊆ {waiter.core} := by
  simp only [findProducer, List.find?_eq_none, Bool.and_eq_true, beq_iff_eq, not_and,
    Bool.not_eq_true', Bool.not_eq_false, sameCore_iff]
  constructor
  · intro h core hcore
    obtain ⟨info, hinfo, hpackage, rfl⟩ := mem_cores.mp hcore
    exact Finset.mem_singleton.mpr (h info hinfo hpackage).2
  · intro h info hinfo hpackage
    exact ⟨hpackage, Finset.mem_singleton.mp (h (mem_cores.mpr ⟨info, hinfo, hpackage, rfl⟩))⟩

/-- There is no controller exactly when the package has no third core. -/
theorem findController_eq_none {cpus : Cpus} {waiter producer : CpuInfo}
    (hproducer : producer.package = waiter.package) :
    findController cpus waiter producer = none ↔
      cpus.cores waiter.package ⊆ {waiter.core, producer.core} := by
  simp only [findController, List.find?_eq_none, Bool.and_eq_true, beq_iff_eq, not_and,
    Bool.not_eq_true', Bool.not_eq_false, sameCore_iff, and_imp]
  constructor
  · intro h core hcore
    obtain ⟨info, hinfo, hpackage, rfl⟩ := mem_cores.mp hcore
    rw [Finset.mem_insert, Finset.mem_singleton]
    by_cases hwaiter : info.core = waiter.core
    · exact Or.inl hwaiter
    · have hne := (sameCore_eq_false hpackage).mpr hwaiter
      exact Or.inr (h info hinfo hpackage hne).2
  · intro h info hinfo hpackage hne
    have hcore := h (mem_cores.mpr ⟨info, hinfo, hpackage, rfl⟩)
    rw [Finset.mem_insert, Finset.mem_singleton] at hcore
    have hwaiter := (sameCore_eq_false hpackage).mp hne
    exact ⟨hpackage.trans hproducer.symm, hcore.resolve_left hwaiter⟩

theorem okOr_eq_ok {α : Type} {text : String} {found : Option α} {a : α} :
    okOr text found = .ok a ↔ found = some a := by
  cases found with
  | none => exact ⟨fun h => (nomatch h), fun h => (nomatch h)⟩
  | some b => rw [okOr, Except.ok.injEq, Option.some.injEq]

/-- The roles are those that the four searches find. -/
theorem chooseRoles_eq_ok {cpus : Cpus} {roles : Roles} :
    chooseRoles cpus = .ok roles ↔ ∃ waiter victim producer controller,
      findWaiter cpus = some waiter ∧ findVictim cpus waiter = some victim ∧
      findProducer cpus waiter = some producer ∧
      findController cpus waiter producer = some controller ∧
      roles = ⟨waiter.cpu, victim, producer.cpu, controller.cpu⟩ := by
  unfold chooseRoles
  constructor
  · intro h
    obtain ⟨waiter, hw, h⟩ := bind_eq_ok.mp h
    obtain ⟨victim, hv, h⟩ := bind_eq_ok.mp h
    obtain ⟨producer, hp, h⟩ := bind_eq_ok.mp h
    obtain ⟨controller, hc, h⟩ := bind_eq_ok.mp h
    exact ⟨waiter, victim, producer, controller, okOr_eq_ok.mp hw, okOr_eq_ok.mp hv,
      okOr_eq_ok.mp hp, okOr_eq_ok.mp hc, pure_eq_ok.mp h⟩
  · rintro ⟨waiter, victim, producer, controller, hw, hv, hp, hc, hroles⟩
    refine bind_eq_ok.mpr ⟨waiter, okOr_eq_ok.mpr hw, ?_⟩
    refine bind_eq_ok.mpr ⟨victim, okOr_eq_ok.mpr hv, ?_⟩
    refine bind_eq_ok.mpr ⟨producer, okOr_eq_ok.mpr hp, ?_⟩
    exact bind_eq_ok.mpr ⟨controller, okOr_eq_ok.mpr hc, pure_eq_ok.mpr hroles⟩

/-- The four searches together place the roles: the victim shares the waiter's core, so that it is
neither of the two CPUs of further cores. -/
theorem chooseRoles_placed {cpus : Cpus} (hkeyed : cpus.Keyed) (hconsistent : cpus.Consistent)
    {roles : Roles} (h : chooseRoles cpus = .ok roles) :
    ∃ waiter victim producer controller, Placed roles cpus waiter victim producer controller := by
  obtain ⟨waiter, victimCpu, producer, controller, hw, hv, hp, hc, rfl⟩ := chooseRoles_eq_ok.mp h
  have hwaiter := (findWaiter_eq_some hkeyed).mp hw
  obtain ⟨hsibling, hvne, honline⟩ := findVictim_eq_some hv
  obtain ⟨hpmem, hppackage, hpcore⟩ := findProducer_eq_some hp
  obtain ⟨hcmem, hcpackage, hcw, hcp⟩ := findController_eq_some hppackage hc
  obtain ⟨victim, hvictim⟩ := contains_iff.mp honline
  obtain ⟨hvpackage, hvcore⟩ := hconsistent waiter hwaiter.online victimCpu victim hsibling hvictim
  have hwget := (hkeyed.getElem hwaiter.online).1
  have hpget := (hkeyed.getElem hpmem).1
  have hcget := (hkeyed.getElem hcmem).1
  -- Entries of different cores have different keys.
  have hne : ∀ {left right : ℕ} {a b : CpuInfo}, cpus[left]? = some a → cpus[right]? = some b →
      a.core ≠ b.core → left ≠ right := by
    intro left right a b ha hb hcore heq
    rw [heq, hb] at ha
    exact hcore (congrArg CpuInfo.core (Option.some.inj ha)).symm
  have hdistinct : [waiter.cpu, victimCpu, producer.cpu, controller.cpu].Nodup := by
    have hwp := hne hwget hpget hpcore.symm
    have hwc := hne hwget hcget hcw.symm
    have hvp := hne hvictim hpget (by rw [hvcore]; exact hpcore.symm)
    have hvc := hne hvictim hcget (by rw [hvcore]; exact hcw.symm)
    have hpc := hne hpget hcget hcp.symm
    simp only [List.nodup_cons, List.mem_cons, List.not_mem_nil, or_false, not_or,
      not_false_eq_true, List.nodup_nil, and_true]
    exact ⟨⟨hvne.symm, hwp, hwc⟩, ⟨hvp, hvc⟩, hpc⟩
  exact ⟨waiter, victim, producer, controller, hwget, hvictim, hpget, hcget, hdistinct,
    ⟨hvpackage, hppackage, hcpackage⟩, hvcore, hpcore, hcw, hcp⟩

theorem chooseRoles_valid {cpus : Cpus} (hkeyed : cpus.Keyed) (hconsistent : cpus.Consistent)
    {roles : Roles} (h : chooseRoles cpus = .ok roles) :
    (Topology.mk roles cpus).validate = .ok () := by
  obtain ⟨waiter, victim, producer, controller, hplaced⟩ := chooseRoles_placed hkeyed hconsistent h
  refine validate_eq_ok.mpr ⟨fun cpu hcpu => ?_, waiter, victim, producer, controller, hplaced⟩
  obtain ⟨info, hinfo⟩ := contains_iff.mp (selected_online hplaced hcpu)
  exact (hkeyed cpu info hinfo).2

/-- Why no roles are chosen. -/
def Cpus.Lacking (cpus : Cpus) : Prop :=
  (∀ info ∈ cpus.infos, info.siblings.size < 2) ∨
    ∃ first, cpus.FirstPaired first ∧
      ((∀ cpu ∈ first.siblings, cpu ≠ first.cpu → cpus.contains cpu = false) ∨
        (cpus.cores first.package).card < 3)

/-- A package in which all roles are found has three cores. -/
theorem card_cores_of_found {cpus : Cpus} {waiter producer controller : CpuInfo}
    (hwaiter : waiter ∈ cpus.infos) (hp : findProducer cpus waiter = some producer)
    (hc : findController cpus waiter producer = some controller) :
    3 ≤ (cpus.cores waiter.package).card := by
  obtain ⟨hpmem, hppackage, hpcore⟩ := findProducer_eq_some hp
  obtain ⟨hcmem, hcpackage, hcw, hcp⟩ := findController_eq_some hppackage hc
  have hthree : ({waiter.core, producer.core, controller.core} : Finset ℕ).card = 3 :=
    Finset.card_eq_three.mpr
      ⟨waiter.core, producer.core, controller.core, hpcore.symm, hcw.symm, hcp.symm, rfl⟩
  rw [← hthree]
  refine Finset.card_le_card fun core hcore => ?_
  rw [Finset.mem_insert, Finset.mem_insert, Finset.mem_singleton] at hcore
  rcases hcore with rfl | rfl | rfl
  · exact mem_cores.mpr ⟨waiter, hwaiter, rfl, rfl⟩
  · exact mem_cores.mpr ⟨producer, hpmem, hppackage, rfl⟩
  · exact mem_cores.mpr ⟨controller, hcmem, hcpackage, rfl⟩

/-- The choice fails on exactly the topologies that lack something. -/
theorem chooseRoles_fails_iff {cpus : Cpus} (hkeyed : cpus.Keyed) :
    (∃ error, chooseRoles cpus = .error error) ↔ cpus.Lacking := by
  constructor
  · rintro ⟨error, h⟩
    unfold chooseRoles at h
    cases hw : findWaiter cpus with
    | none => exact Or.inl (findWaiter_eq_none.mp hw)
    | some waiter =>
      refine Or.inr ⟨waiter, (findWaiter_eq_some hkeyed).mp hw, ?_⟩
      cases hv : findVictim cpus waiter with
      | none => exact Or.inl (findVictim_eq_none.mp hv)
      | some victim =>
        refine Or.inr ?_
        cases hp : findProducer cpus waiter with
        | none =>
          have hcard := Finset.card_le_card (findProducer_eq_none.mp hp)
          rw [Finset.card_singleton] at hcard
          omega
        | some producer =>
          cases hc : findController cpus waiter producer with
          | none =>
            have hppackage := (findProducer_eq_some hp).2.1
            have hcard := Finset.card_le_card ((findController_eq_none hppackage).mp hc)
            have htwo : ({waiter.core, producer.core} : Finset ℕ).card ≤ 2 := Finset.card_le_two
            omega
          | some controller =>
            have hok := chooseRoles_eq_ok.mpr
              ⟨waiter, victim, producer, controller, hw, hv, hp, hc, rfl⟩
            unfold chooseRoles at hok
            rw [h] at hok
            cases hok
  · intro hlacking
    cases hchosen : chooseRoles cpus with
    | error error => exact ⟨error, rfl⟩
    | ok roles =>
      obtain ⟨waiter, victim, producer, controller, hw, hv, hp, hc, -⟩ :=
        chooseRoles_eq_ok.mp hchosen
      have hwaiter := (findWaiter_eq_some hkeyed).mp hw
      rcases hlacking with hnone | ⟨first, hfirst, hlacking⟩
      · have hcard := hnone waiter hwaiter.online
        have hpaired := hwaiter.paired
        omega
      · have heq : first = waiter :=
          Option.some.inj (((findWaiter_eq_some hkeyed).mpr hfirst).symm.trans hw)
        rw [heq] at hlacking
        rcases hlacking with hoffline | hcores
        · have hnone := findVictim_eq_none.mpr hoffline
          rw [hnone] at hv
          cases hv
        · have hcard := card_cores_of_found hwaiter.online hp hc
          omega

/-- Roles that are chosen are valid, and none are chosen exactly when there is no SMT pair, when the
first has no other online sibling, or when its package has not three online cores. -/
theorem choose_roles_satisfies_validator (cpus : Cpus) (hkeyed : cpus.Keyed)
    (hconsistent : cpus.Consistent) :
    (∀ roles, chooseRoles cpus = .ok roles →
      (Topology.mk roles cpus).validate = .ok () ∧
      ∃ waiter victim producer controller,
        Placed roles cpus waiter victim producer controller) ∧
    ((∃ error, chooseRoles cpus = .error error) ↔ cpus.Lacking) :=
  ⟨fun _ h => ⟨chooseRoles_valid hkeyed hconsistent h, chooseRoles_placed hkeyed hconsistent h⟩,
    chooseRoles_fails_iff hkeyed⟩

/-- Two threads of one core, and two more cores. -/
def sampleCpus : Cpus :=
  Std.TreeMap.ofList [(0, CpuInfo.mk 0 0 0 (.ofList [0, 4])), (1, CpuInfo.mk 1 0 1 (.ofList [1])),
    (2, CpuInfo.mk 2 0 2 (.ofList [2])), (4, CpuInfo.mk 4 0 0 (.ofList [0, 4]))]

theorem choose_roles_satisfies_validator_sample :
    chooseRoles sampleCpus = .ok ⟨0, 4, 1, 2⟩ ∧
      (Topology.mk ⟨0, 4, 1, 2⟩ sampleCpus).validate = .ok () :=
  ⟨by decide, ((choose_roles_satisfies_validator sampleCpus (by decide) (by decide)).1
    ⟨0, 4, 1, 2⟩ (by decide)).1⟩

end Snoozer.WakeLatency
