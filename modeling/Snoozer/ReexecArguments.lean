import Snoozer.CommandLine
import Snoozer.CpuIdleCalls
import Mathlib.Algebra.Group.Nat.Defs

/-! The command line of `tools/benchctl/src/cli.rs`, and the arguments with which Benchctl starts
itself again: those of `sudo_run`, of `sudo_control` and of the workload supervisor. -/
namespace Snoozer.Benchctl
open CommandLine Interactive Fallible

def u32Max : ℕ := 2 ^ 32 - 1

/-- `u64::MAX`, and `usize::MAX` on the target. -/
def u64Max : ℕ := 2 ^ 64 - 1

def realStateRoot : PathBuf := ⟨true, ["run", "benchctl", "operations"]⟩

namespace PathBuf

/-- The components of a path as it is written: a leading `.` stands only in a relative path. -/
def ofOsStr (text : Token) : PathBuf :=
  let parts := text.toList.splitOn '/'
  let absolute : Bool := text.toList.head? = some '/'
  let named := parts.filter fun part => part ≠ [] && part ≠ ['.']
  { absolute := absolute
    components :=
      (if !absolute && parts.head? = some ['.'] then ["."] else []) ++ named.map String.ofList }

/-- An absolute path with components that can be read back. -/
structure Written (path : PathBuf) : Prop where
  absolute : path.absolute = true
  component : ∀ name ∈ path.components, name ≠ "" ∧ name ≠ "." ∧ '/' ∉ name.toList

end PathBuf

inductive CpuIdlePolicy where
  | pollC1
  deriving DecidableEq, Repr

def CpuIdlePolicy.name : CpuIdlePolicy → Token
  | pollC1 => "poll-c1"

def CpuIdlePolicy.ofName (name : Token) : Option CpuIdlePolicy :=
  if name = CpuIdlePolicy.pollC1.name then some .pollC1 else none

structure Run where
  receipt : PathBuf
  operationId : Option String
  cpuidle : CpuIdlePolicy
  cpus : List ℕ
  timeout : ℕ
  sysfsRoot : PathBuf
  stateRoot : PathBuf
  coordinator : Bool
  clientPid : Option ℕ
  workload : List String
  deriving DecidableEq, Repr

structure Control where
  operationId : Option String
  sysfsRoot : PathBuf
  stateRoot : PathBuf
  coordinator : Bool
  deriving DecidableEq, Repr

structure Workload where
  go : PathBuf
  status : PathBuf
  receipt : PathBuf
  executable : PathBuf
  operationId : String
  coordinatorPid : ℕ
  uid : ℕ
  gid : ℕ
  productionControl : Bool
  workload : List String
  deriving DecidableEq, Repr

def Run.args : List Arg :=
  [⟨"receipt", .option false, true⟩, ⟨"operation-id", .option false, false⟩,
    ⟨"cpuidle", .option false, true⟩, ⟨"cpu", .option true, true⟩,
    ⟨"timeout", .option false, false⟩, ⟨"sysfs-root", .option false, false⟩,
    ⟨"state-root", .option false, false⟩, ⟨"coordinator", .flag, false⟩,
    ⟨"client-pid", .option false, false⟩, ⟨"workload", .last, true⟩]

def Control.args : List Arg :=
  [⟨"operation_id", .positional, false⟩, ⟨"sysfs-root", .option false, false⟩,
    ⟨"state-root", .option false, false⟩, ⟨"coordinator", .flag, false⟩]

def Workload.args : List Arg :=
  [⟨"go", .option false, true⟩, ⟨"status", .option false, true⟩,
    ⟨"receipt", .option false, true⟩, ⟨"executable", .option false, true⟩,
    ⟨"operation-id", .option false, true⟩, ⟨"coordinator-pid", .option false, true⟩,
    ⟨"uid", .option false, true⟩, ⟨"gid", .option false, true⟩,
    ⟨"production-control", .flag, false⟩, ⟨"workload", .last, false⟩]

section FromMatches

variable (clap : Parser) (m : Matches)

def pathOr (name : String) (default : PathBuf) : PathBuf :=
  ((m.value name).map PathBuf.ofOsStr).getD default

def Run.fromMatches : Option Run := do
  let receipt ← m.value "receipt"
  let cpuidle ← (m.value "cpuidle").bind CpuIdlePolicy.ofName
  let cpus ← (m.values "cpu").mapM (clap.unsigned u64Max)
  let timeout ← clap.unsigned u64Max ((m.value "timeout").getD "900")
  let clientPid ← (m.value "client-pid").mapM (clap.unsigned u32Max)
  return {
    receipt := PathBuf.ofOsStr receipt
    operationId := m.value "operation-id"
    cpuidle := cpuidle
    cpus := cpus
    timeout := timeout
    sysfsRoot := pathOr m "sysfs-root" realSysfsRoot
    stateRoot := pathOr m "state-root" realStateRoot
    coordinator := m.flag "coordinator"
    clientPid := clientPid
    workload := m.last }

def Control.fromMatches : Control where
  operationId := m.positional
  sysfsRoot := pathOr m "sysfs-root" realSysfsRoot
  stateRoot := pathOr m "state-root" realStateRoot
  coordinator := m.flag "coordinator"

def Workload.fromMatches : Option Workload := do
  let go ← m.value "go"
  let status ← m.value "status"
  let receipt ← m.value "receipt"
  let executable ← m.value "executable"
  let operationId ← m.value "operation-id"
  let coordinatorPid ← (m.value "coordinator-pid").bind (clap.unsigned u32Max)
  let uid ← (m.value "uid").bind (clap.unsigned u32Max)
  let gid ← (m.value "gid").bind (clap.unsigned u32Max)
  return {
    go := PathBuf.ofOsStr go
    status := PathBuf.ofOsStr status
    receipt := PathBuf.ofOsStr receipt
    executable := PathBuf.ofOsStr executable
    operationId := operationId
    coordinatorPid := coordinatorPid
    uid := uid
    gid := gid
    productionControl := m.flag "production-control"
    workload := m.last }

end FromMatches

/-- The commands that are started again. -/
inductive Command where
  | run (value : Run)
  | status (value : Control)
  | recover (value : Control)
  | workload (value : Workload)
  deriving DecidableEq, Repr

/-- `Cli::try_parse_from` on the arguments that follow the name of the program. -/
def Cli.tryParse (clap : Parser) : List Token → Option Command
  | [] => none
  | name :: rest =>
    if name = "run" then
      ((clap.parse Run.args rest).bind (Run.fromMatches clap)).map .run
    else if name = "status" then
      (clap.parse Control.args rest).map fun m => .status (Control.fromMatches m)
    else if name = "recover" then
      (clap.parse Control.args rest).map fun m => .recover (Control.fromMatches m)
    else if name = "__workload" then
      ((clap.parse Workload.args rest).bind (Workload.fromMatches clap)).map .workload
    else none

/-- The request that `cli::run` makes of the command. -/
def Run.request (value : Run) : RunRequest where
  operationId := value.operationId
  receiptPath := value.receipt
  cpus := value.cpus
  timeout := value.timeout * 1000000000
  workload := value.workload
  sysfsRoot := value.sysfsRoot
  stateRoot := value.stateRoot
  clientPid := value.clientPid

/-- The arguments `sudo_run` puts after the executable; `pid` is the process's own. -/
def sudoRun (pid : ℕ) (request : RunRequest) : List Token :=
  ["run", "--coordinator", "--client-pid", pid.repr, "--receipt", request.receiptPath.display,
    "--cpuidle", "poll-c1", "--timeout", (request.timeout / 1000000000).repr,
    "--sysfs-root", request.sysfsRoot.display, "--state-root", request.stateRoot.display] ++
  request.operationId.toList.flatMap (fun operationId => ["--operation-id", operationId]) ++
  request.cpus.flatMap (fun cpu => ["--cpu", cpu.repr]) ++ "--" :: request.workload

def sudoControl (action : Token) (operationId : Option String) (sysfsRoot stateRoot : PathBuf) :
    List Token :=
  [action, "--coordinator", "--sysfs-root", sysfsRoot.display, "--state-root",
    stateRoot.display] ++ operationId.toList

/-- The arguments of the supervisor, in `supervision::coordinate`. -/
def supervisorArguments (coordinatorPid : ℕ) (stateRoot : PathBuf) (request : CoordinateRequest) :
    List Token :=
  let runtime := stateRoot.join (request.operationId ++ ".runtime")
  ["__workload", "--go", (runtime.join "go").display,
    "--status", (runtime.join "status.json").display, "--receipt", request.receipt.display,
    "--executable", request.executable.display, "--operation-id", request.operationId,
    "--coordinator-pid", coordinatorPid.repr, "--uid", request.uid.repr,
    "--gid", request.gid.repr] ++
  (if request.productionControl then ["--production-control"] else []) ++
  "--" :: request.workload

namespace PathBuf

theorem Written.join {path : PathBuf} (h : path.Written) {name : String}
    (hname : name ≠ "" ∧ name ≠ "." ∧ '/' ∉ name.toList) : (path.join name).Written := by
  refine ⟨h.absolute, ?_⟩
  intro other hother
  rcases List.mem_append.mp hother with hold | hnew
  · exact h.component other hold
  · rw [List.mem_singleton] at hnew
    rw [hnew]
    exact hname

theorem toList_display {path : PathBuf} (h : path.Written) :
    path.display.toList = '/' :: ['/'].intercalate (path.components.map String.toList) := by
  rw [display, if_pos h.absolute, String.toList_append, String.toList_intercalate]
  rfl

theorem not_hyphenated_display {path : PathBuf} (h : path.Written) :
    ¬ Hyphenated path.display := by
  intro hhyphen
  have hhead := hhyphen.1
  rw [toList_display h] at hhead
  exact absurd (Option.some.inj hhead) (by decide)

/-- A written path is split back into its components. -/
theorem splitOn_display {path : PathBuf} (h : path.Written) (hne : path.components ≠ []) :
    path.display.toList.splitOn '/' = [] :: path.components.map String.toList := by
  have hjoined : path.display.toList =
      ['/'].intercalate ([] :: path.components.map String.toList) := by
    rw [toList_display h, List.intercalate_cons_of_ne_nil (by simpa using hne)]
    rfl
  rw [hjoined]
  apply List.splitOn_intercalate '/' _ (List.cons_ne_nil _ _)
  intro part hpart
  rcases List.mem_cons.mp hpart with rfl | hmem
  · exact List.not_mem_nil
  · obtain ⟨name, hname, rfl⟩ := List.mem_map.mp hmem
    exact (h.component name hname).2.2

/-- The components that are kept are all of them. -/
theorem filter_components {path : PathBuf} (h : path.Written) :
    (path.components.map String.toList).filter (fun part => part ≠ [] && part ≠ ['.']) =
      path.components.map String.toList := by
  rw [List.filter_eq_self]
  intro part hpart
  obtain ⟨name, hname, rfl⟩ := List.mem_map.mp hpart
  have hwritten := h.component name hname
  have hempty : name.toList ≠ [] := by
    intro heq
    exact hwritten.1 (String.toList_inj.mp heq)
  have hdot : name.toList ≠ ['.'] := by
    intro heq
    exact hwritten.2.1 (String.toList_inj.mp heq)
  simp [hempty, hdot]

/-- A path is read back from how it is displayed. -/
theorem ofOsStr_display {path : PathBuf} (h : path.Written) : ofOsStr path.display = path := by
  have hhead : path.display.toList.head? = some '/' := by rw [toList_display h]; rfl
  have hnamed : (path.display.toList.splitOn '/').filter
      (fun part => part ≠ [] && part ≠ ['.']) = path.components.map String.toList := by
    by_cases hne : path.components = []
    · rw [toList_display h, hne]
      decide
    · rw [splitOn_display h hne, List.filter_cons_of_neg (by simp), filter_components h]
  have hread : (path.components.map String.toList).map String.ofList = path.components := by
    rw [List.map_map]
    exact (List.map_congr_left fun name _ => String.ofList_toList).trans (List.map_id _)
  rw [ofOsStr]
  simp only [hhead, hnamed, hread, decide_true, Bool.not_true, Bool.false_and,
    Bool.false_eq_true, if_false, List.nil_append]
  rw [← h.absolute]

end PathBuf

theorem wellNamed_run : WellNamed Run.args := by constructor <;> decide

theorem wellNamed_control : WellNamed Control.args := by constructor <;> decide

theorem wellNamed_workload : WellNamed Workload.args := by constructor <;> decide

/-- A decimal numeral does not begin with a hyphen. -/
theorem not_hyphenated_repr (n : ℕ) : ¬ Hyphenated n.repr := by
  intro h
  have hmem : '-' ∈ n.repr.toList := List.mem_of_mem_head? h.1
  rw [Nat.toList_repr] at hmem
  have hdigit := Nat.isDigit_of_mem_toDigits (by decide) le_rfl hmem
  exact absurd hdigit (by decide)

section Items

variable (pid : ℕ) (request : RunRequest)

/-- What `sudo_run` gives in front of the operation id. -/
def fixedItems : List Item :=
  [.flag "coordinator", .option "client-pid" pid.repr,
    .option "receipt" request.receiptPath.display, .option "cpuidle" "poll-c1",
    .option "timeout" (request.timeout / 1000000000).repr,
    .option "sysfs-root" request.sysfsRoot.display,
    .option "state-root" request.stateRoot.display]

def idItems (operationId : Option String) : List Item :=
  operationId.toList.map (Item.option "operation-id")

def cpuItems (cpus : List ℕ) : List Item := cpus.map fun cpu => Item.option "cpu" cpu.repr

def runItems : List Item :=
  fixedItems pid request ++ (idItems request.operationId ++ cpuItems request.cpus)

theorem sudoRun_eq :
    sudoRun pid request =
      "run" :: ((runItems pid request).flatMap Item.tokens ++ escape :: request.workload) := by
  simp [sudoRun, runItems, fixedItems, idItems, cpuItems, Item.tokens, long, escape,
    List.flatMap_map]

theorem given_runItems (last : List Token) (arg : Arg) :
    (Matches.mk (runItems pid request) last).given arg =
      (fixedItems pid request).countP (Item.isOf arg) +
        ((if (Item.option "operation-id" "").isOf arg then request.operationId.toList.length
            else 0) +
          if (Item.option "cpu" "").isOf arg then request.cpus.length else 0) := by
  rw [Matches.given, runItems, List.countP_append, List.countP_append, idItems, cpuItems,
    countP_isOf_option arg "operation-id" (fun id => id), countP_isOf_option]

theorem declared_runItems {item : Item} (h : item ∈ runItems pid request) :
    item.Declared Run.args := by
  rcases List.mem_append.mp h with hfixed | hrest
  · have hall : ∀ item ∈ fixedItems pid request, item.Declared Run.args := by
      simp [fixedItems, Item.Declared, Item.isOf, Run.args]
    exact hall item hfixed
  · rcases List.mem_append.mp hrest with hid | hcpu
    · obtain ⟨id, _, rfl⟩ := List.mem_map.mp hid
      simp [Item.Declared, Item.isOf, Run.args]
    · obtain ⟨cpu, _, rfl⟩ := List.mem_map.mp hcpu
      simp [Item.Declared, Item.isOf, Run.args]

/-- The items of a run fit the arguments of `run`. -/
theorem fits_runItems (hcpus : request.cpus ≠ []) (hworkload : request.workload ≠ []) :
    Fits Run.args ⟨runItems pid request, request.workload⟩ := by
  have hlength : 0 < request.cpus.length := List.length_pos_iff.mpr hcpus
  have honce : request.operationId.toList.length ≤ 1 := by
    cases request.operationId <;> simp
  refine ⟨fun item hitem => declared_runItems pid request hitem, ?_, fun _ => by decide⟩
  intro arg harg
  have hgiven := given_runItems pid request request.workload arg
  simp only [Run.args, List.mem_cons, List.not_mem_nil, or_false] at harg
  rcases harg with rfl | rfl | rfl | rfl | rfl | rfl | rfl | rfl | rfl | rfl <;>
  · simp [fixedItems, Item.isOf] at hgiven
    refine ⟨?_, ?_, ?_⟩
    · simp [hgiven, honce]
    · simp [hgiven, hlength]
    · simp [hworkload]

/-- None of them can be taken for another option. -/
theorem plain_runItems (hreceipt : request.receiptPath.Written)
    (hsysfs : request.sysfsRoot.Written) (hstate : request.stateRoot.Written)
    (hid : ∀ id ∈ request.operationId, ¬ Hyphenated id) :
    ∀ item ∈ runItems pid request, item.Plain := by
  intro item hitem
  rcases List.mem_append.mp hitem with hfixed | hrest
  · have hall : ∀ item ∈ fixedItems pid request, item.Plain := by
      simp [fixedItems, Item.Plain, not_hyphenated_repr, PathBuf.not_hyphenated_display,
        hreceipt, hsysfs, hstate]
      decide
    exact hall item hfixed
  · rcases List.mem_append.mp hrest with hidItem | hcpu
    · obtain ⟨id, hmem, rfl⟩ := List.mem_map.mp hidItem
      exact hid id (Option.mem_toList.mp hmem)
    · obtain ⟨cpu, _, rfl⟩ := List.mem_map.mp hcpu
      exact not_hyphenated_repr cpu

theorem values_runItems (last : List Token) (name : String) :
    (Matches.mk (runItems pid request) last).values name =
      (Matches.mk (fixedItems pid request) last).values name ++
        ((if "operation-id" = name then request.operationId.toList else []) ++
          if "cpu" = name then request.cpus.map Nat.repr else []) := by
  rw [runItems, Matches.values_append, Matches.values_append, idItems, cpuItems,
    Matches.values_option "operation-id" (fun id => id), Matches.values_option, List.map_id']

/-- The command that `sudo_run` means. -/
def reexecutedRun : Run where
  receipt := request.receiptPath
  operationId := request.operationId
  cpuidle := .pollC1
  cpus := request.cpus
  timeout := request.timeout / 1000000000
  sysfsRoot := request.sysfsRoot
  stateRoot := request.stateRoot
  coordinator := true
  clientPid := some pid
  workload := request.workload

/-- A run is read back from its items. -/
theorem fromMatches_runItems (clap : Parser) (hpid : pid ≤ u32Max)
    (hreceipt : request.receiptPath.Written) (hsysfs : request.sysfsRoot.Written)
    (hstate : request.stateRoot.Written) (hcpus : ∀ cpu ∈ request.cpus, cpu ≤ u64Max)
    (htimeout : request.timeout / 1000000000 ≤ u64Max) :
    Run.fromMatches clap ⟨runItems pid request, request.workload⟩ =
      some (reexecutedRun pid request) := by
  have hvalues := values_runItems pid request request.workload
  have hcpu : (Matches.mk (runItems pid request) request.workload).values "cpu" =
      request.cpus.map Nat.repr := by
    rw [hvalues]
    simp [fixedItems, Matches.values]
  have hid : (Matches.mk (runItems pid request) request.workload).value "operation-id" =
      request.operationId := by
    rw [Matches.value, hvalues]
    cases request.operationId <;> simp [fixedItems, Matches.values]
  have hgiven (name : String) {value : Token}
      (h : ((Matches.mk (fixedItems pid request) request.workload).values name).head? =
        some value) :
      (Matches.mk (runItems pid request) request.workload).value name = some value := by
    rw [Matches.value, hvalues, List.head?_append, h]
    rfl
  have hflag : (Matches.mk (runItems pid request) request.workload).flag "coordinator" = true := by
    simp [Matches.flag, runItems, fixedItems]
  rw [Run.fromMatches, hcpu, hid, hflag, pathOr, pathOr,
    hgiven "receipt" rfl, hgiven "cpuidle" rfl, hgiven "timeout" rfl,
    hgiven "client-pid" rfl, hgiven "sysfs-root" rfl,
    hgiven "state-root" rfl, clap.mapM_unsigned_repr hcpus]
  simp [clap.unsigned_repr hpid, clap.unsigned_repr htimeout, PathBuf.ofOsStr_display, hreceipt,
    hsysfs, hstate, CpuIdlePolicy.ofName, CpuIdlePolicy.name, reexecutedRun]

theorem tryParse_run (clap : Parser) (rest : List Token) :
    Cli.tryParse clap ("run" :: rest) =
      ((clap.parse Run.args rest).bind (Run.fromMatches clap)).map .run := by
  rw [Cli.tryParse, if_pos rfl]

/-- An id that begins with a hyphen is not taken for the value of its option. -/
theorem sudoRun_refused (clap : Parser) {id : String} (hid : request.operationId = some id)
    (hhyphen : Hyphenated id) (hreceipt : request.receiptPath.Written)
    (hsysfs : request.sysfsRoot.Written) (hstate : request.stateRoot.Written) :
    Cli.tryParse clap (sudoRun pid request) = none := by
  have htokens : sudoRun pid request =
      "run" :: ((fixedItems pid request).flatMap Item.tokens ++ long "operation-id" :: id ::
        ((cpuItems request.cpus).flatMap Item.tokens ++ escape :: request.workload)) := by
    rw [sudoRun_eq, runItems, idItems, hid]
    simp [Item.tokens]
  have hplain := plain_runItems pid { request with operationId := none } hreceipt hsysfs hstate
    (fun _ h => by cases h)
  have hdeclared (item : Item) (hitem : item ∈ fixedItems pid request) :
      item.Declared Run.args :=
    declared_runItems pid request (List.mem_append_left _ hitem)
  have hspelled : SpelledAll (fixedItems pid request)
      ((fixedItems pid request).flatMap Item.tokens) :=
    spelledAll_tokens fun item hitem => hplain item (List.mem_append_left _ hitem)
  rw [htokens, tryParse_run, clap.parse_hyphenated wellNamed_run hdeclared hspelled
    (by simp [Item.Declared, Item.isOf, Run.args]) hhyphen]
  rfl

end Items

section ControlItems

variable (operationId : Option String) (sysfsRoot stateRoot : PathBuf)

def controlItems : List Item :=
  [.flag "coordinator", .option "sysfs-root" sysfsRoot.display,
    .option "state-root" stateRoot.display] ++ operationId.toList.map Item.positional

theorem sudoControl_eq (action : Token) :
    sudoControl action operationId sysfsRoot stateRoot =
      action :: (controlItems operationId sysfsRoot stateRoot).flatMap Item.tokens := by
  simp [sudoControl, controlItems, Item.tokens, long, List.flatMap_map]

theorem fits_controlItems :
    Fits Control.args ⟨controlItems operationId sysfsRoot stateRoot, []⟩ := by
  refine ⟨?_, ?_, fun h => absurd rfl h⟩
  · cases operationId <;> simp [controlItems, Item.Declared, Item.isOf, Control.args]
  · intro arg harg
    simp only [Control.args, List.mem_cons, List.not_mem_nil, or_false] at harg
    cases operationId <;> rcases harg with rfl | rfl | rfl | rfl <;>
    · refine ⟨?_, ?_, ?_⟩ <;> simp [controlItems, Matches.given, Item.isOf]

def reexecutedControl : Control where
  operationId := operationId
  sysfsRoot := sysfsRoot
  stateRoot := stateRoot
  coordinator := true

theorem fromMatches_controlItems (hsysfs : sysfsRoot.Written) (hstate : stateRoot.Written) :
    Control.fromMatches ⟨controlItems operationId sysfsRoot stateRoot, []⟩ =
      reexecutedControl operationId sysfsRoot stateRoot := by
  cases operationId <;>
    simp [Control.fromMatches, controlItems, pathOr, Matches.value, Matches.values, Matches.flag,
      Matches.positional, PathBuf.ofOsStr_display, hsysfs, hstate, reexecutedControl]

theorem parse_controlItems (clap : Parser) (hsysfs : sysfsRoot.Written)
    (hstate : stateRoot.Written) (hid : ∀ id ∈ operationId, ¬ Hyphenated id) :
    clap.parse Control.args ((controlItems operationId sysfsRoot stateRoot).flatMap Item.tokens) =
      some ⟨controlItems operationId sysfsRoot stateRoot, []⟩ := by
  apply clap.parse_tokens wellNamed_control (fits_controlItems operationId sysfsRoot stateRoot)
  cases operationId with
  | none =>
    simp [controlItems, Item.Plain, PathBuf.not_hyphenated_display, hsysfs, hstate]
  | some id =>
    simp [controlItems, Item.Plain, PathBuf.not_hyphenated_display, hsysfs, hstate, hid]

/-- A control command is read back from its re-executed arguments. -/
theorem sudoControl_read (clap : Parser) {operationId : Option String}
    {sysfsRoot stateRoot : PathBuf} (hsysfs : sysfsRoot.Written) (hstate : stateRoot.Written)
    (hid : ∀ id ∈ operationId, ¬ Hyphenated id) :
    Cli.tryParse clap (sudoControl "status" operationId sysfsRoot stateRoot) =
      some (.status (reexecutedControl operationId sysfsRoot stateRoot)) ∧
    Cli.tryParse clap (sudoControl "recover" operationId sysfsRoot stateRoot) =
      some (.recover (reexecutedControl operationId sysfsRoot stateRoot)) := by
  have hparse := parse_controlItems operationId sysfsRoot stateRoot clap hsysfs hstate hid
  have hread := fromMatches_controlItems operationId sysfsRoot stateRoot hsysfs hstate
  constructor
  · rw [sudoControl_eq, Cli.tryParse, if_neg (by decide), if_pos rfl, hparse, Option.map_some,
      hread]
  · rw [sudoControl_eq, Cli.tryParse, if_neg (by decide), if_neg (by decide), if_pos rfl, hparse,
      Option.map_some, hread]

/-- An id that begins with a hyphen is not taken for the positional. -/
theorem positional_ne (clap : Parser) {id : String} {m : Matches} (hsysfs : sysfsRoot.Written)
    (hstate : stateRoot.Written) (hhyphen : Hyphenated id)
    (hparse : clap.parse Control.args
      ((controlItems (some id) sysfsRoot stateRoot).flatMap Item.tokens) = some m) :
    m.positional ≠ some id := by
  intro hpositional
  have hescaped := clap.positional_escaped hparse (Matches.mem_of_positional hpositional) hhyphen
  have htokens : (controlItems (some id) sysfsRoot stateRoot).flatMap Item.tokens =
      ["--coordinator", "--sysfs-root", sysfsRoot.display, "--state-root",
        stateRoot.display] ++ [id] := by
    simp [controlItems, Item.tokens, long]
  rw [htokens] at hescaped
  have hmem := hescaped.escape_mem
  have hdisplay {path : PathBuf} (hpath : path.Written) : escape ≠ path.display := by
    intro heq
    apply PathBuf.not_hyphenated_display hpath
    rw [← heq]
    decide
  simp only [List.mem_cons, List.not_mem_nil, hdisplay hsysfs, hdisplay hstate] at hmem
  exact absurd hmem (by decide)

end ControlItems

section SupervisorItems

variable (coordinatorPid : ℕ) (stateRoot : PathBuf) (request : CoordinateRequest)

def runtimeDirectory : PathBuf := stateRoot.join (request.operationId ++ ".runtime")

/-- What the supervisor is given in front of the operation id. -/
def pathItems : List Item :=
  [.option "go" ((runtimeDirectory stateRoot request).join "go").display,
    .option "status" ((runtimeDirectory stateRoot request).join "status.json").display,
    .option "receipt" request.receipt.display, .option "executable" request.executable.display]

def actorItems : List Item :=
  [.option "coordinator-pid" coordinatorPid.repr, .option "uid" request.uid.repr,
    .option "gid" request.gid.repr] ++
  if request.productionControl then [.flag "production-control"] else []

def supervisorItems : List Item :=
  pathItems stateRoot request ++
    .option "operation-id" request.operationId :: actorItems coordinatorPid request

theorem supervisorArguments_eq :
    supervisorArguments coordinatorPid stateRoot request =
      "__workload" :: ((supervisorItems coordinatorPid stateRoot request).flatMap Item.tokens ++
        escape :: request.workload) := by
  cases hproduction : request.productionControl <;>
    simp [supervisorArguments, supervisorItems, pathItems, actorItems, runtimeDirectory,
      Item.tokens, long, escape, hproduction]

theorem declared_supervisorItems {item : Item}
    (h : item ∈ supervisorItems coordinatorPid stateRoot request) :
    item.Declared Workload.args := by
  revert item
  cases hproduction : request.productionControl <;>
    simp [supervisorItems, pathItems, actorItems, hproduction, Item.Declared, Item.isOf,
      Workload.args]

theorem fits_supervisorItems :
    Fits Workload.args
      ⟨supervisorItems coordinatorPid stateRoot request, request.workload⟩ := by
  refine ⟨fun item h => declared_supervisorItems coordinatorPid stateRoot request h, ?_,
    fun _ => by decide⟩
  intro arg harg
  simp only [Workload.args, List.mem_cons, List.not_mem_nil, or_false] at harg
  cases hproduction : request.productionControl <;>
    rcases harg with rfl | rfl | rfl | rfl | rfl | rfl | rfl | rfl | rfl | rfl <;>
  · refine ⟨?_, ?_, ?_⟩ <;>
      simp [supervisorItems, pathItems, actorItems, hproduction, Matches.given, Item.isOf]

/-- The command that `coordinate` means. -/
def supervisorCommand : Workload where
  go := (runtimeDirectory stateRoot request).join "go"
  status := (runtimeDirectory stateRoot request).join "status.json"
  receipt := request.receipt
  executable := request.executable
  operationId := request.operationId
  coordinatorPid := coordinatorPid
  uid := request.uid
  gid := request.gid
  productionControl := request.productionControl
  workload := request.workload

/-- What the supervisor is given can be written down. -/
structure Launchable : Prop where
  coordinatorPid : coordinatorPid ≤ u32Max
  runtime : (runtimeDirectory stateRoot request).Written
  receipt : request.receipt.Written
  executable : request.executable.Written
  uid : request.uid ≤ u32Max
  gid : request.gid ≤ u32Max

variable {coordinatorPid stateRoot request}

theorem Launchable.go (h : Launchable coordinatorPid stateRoot request) :
    ((runtimeDirectory stateRoot request).join "go").Written :=
  h.runtime.join (by decide)

theorem Launchable.status (h : Launchable coordinatorPid stateRoot request) :
    ((runtimeDirectory stateRoot request).join "status.json").Written :=
  h.runtime.join (by decide)

theorem Launchable.plain_pathItems (h : Launchable coordinatorPid stateRoot request) :
    ∀ item ∈ pathItems stateRoot request, item.Plain := by
  simp [pathItems, Item.Plain, PathBuf.not_hyphenated_display, h.go, h.status, h.receipt,
    h.executable]

theorem plain_actorItems : ∀ item ∈ actorItems coordinatorPid request, item.Plain := by
  cases hproduction : request.productionControl <;>
    simp [actorItems, hproduction, Item.Plain, not_hyphenated_repr]

theorem Launchable.plain_supervisorItems (h : Launchable coordinatorPid stateRoot request)
    (hid : ¬ Hyphenated request.operationId) :
    ∀ item ∈ supervisorItems coordinatorPid stateRoot request, item.Plain := by
  intro item hitem
  rcases List.mem_append.mp hitem with hpath | hrest
  · exact h.plain_pathItems item hpath
  · rcases List.mem_cons.mp hrest with rfl | hactor
    · exact hid
    · exact plain_actorItems item hactor

theorem Launchable.fromMatches (h : Launchable coordinatorPid stateRoot request)
    (clap : Parser) :
    Workload.fromMatches clap
        ⟨supervisorItems coordinatorPid stateRoot request, request.workload⟩ =
      some (supervisorCommand coordinatorPid stateRoot request) := by
  cases hproduction : request.productionControl <;>
    simp [Workload.fromMatches, supervisorItems, pathItems, actorItems, hproduction,
      Matches.value, Matches.values, Matches.flag, PathBuf.ofOsStr_display, h.go, h.status,
      h.receipt, h.executable, clap.unsigned_repr h.coordinatorPid, clap.unsigned_repr h.uid,
      clap.unsigned_repr h.gid, supervisorCommand]

theorem tryParse_workload (clap : Parser) (rest : List Token) :
    Cli.tryParse clap ("__workload" :: rest) =
      ((clap.parse Workload.args rest).bind (Workload.fromMatches clap)).map .workload := by
  rw [Cli.tryParse, if_neg (by decide), if_neg (by decide), if_neg (by decide), if_pos rfl]

theorem Launchable.parsed (h : Launchable coordinatorPid stateRoot request) (clap : Parser)
    (hid : ¬ Hyphenated request.operationId) :
    Cli.tryParse clap (supervisorArguments coordinatorPid stateRoot request) =
      some (.workload (supervisorCommand coordinatorPid stateRoot request)) := by
  rw [supervisorArguments_eq, tryParse_workload,
    clap.parse_tokens_escaped wellNamed_workload (by decide)
      (fits_supervisorItems coordinatorPid stateRoot request) (h.plain_supervisorItems hid),
    Option.bind_some, h.fromMatches clap]
  rfl

/-- A hyphenated operation id makes the supervisor refuse its arguments. -/
theorem Launchable.refused (h : Launchable coordinatorPid stateRoot request) (clap : Parser)
    (hid : Hyphenated request.operationId) :
    Cli.tryParse clap (supervisorArguments coordinatorPid stateRoot request) = none := by
  have htokens : supervisorArguments coordinatorPid stateRoot request =
      "__workload" :: ((pathItems stateRoot request).flatMap Item.tokens ++
        long "operation-id" :: request.operationId ::
          ((actorItems coordinatorPid request).flatMap Item.tokens ++
            escape :: request.workload)) := by
    rw [supervisorArguments_eq, supervisorItems]
    simp [Item.tokens]
  have hdeclared (item : Item) (hitem : item ∈ pathItems stateRoot request) :
      item.Declared Workload.args :=
    declared_supervisorItems coordinatorPid stateRoot request (List.mem_append_left _ hitem)
  rw [htokens, tryParse_workload, clap.parse_hyphenated wellNamed_workload hdeclared
    (spelledAll_tokens h.plain_pathItems) (by simp [Item.Declared, Item.isOf, Workload.args]) hid]
  rfl

end SupervisorItems

/-- The id of an operation that is given none. -/
def newOperationId (millis pid : ℕ) : String := millis.repr ++ "-" ++ pid.repr

namespace RunRequest

/-- What a run of the request starts its supervisor with. -/
structure Launches (request : RunRequest) (launch : CoordinateRequest) : Prop where
  valid : validOperationId launch.operationId = true
  chosen : ∀ id ∈ request.operationId, launch.operationId = id
  receipt : launch.receipt = request.stateRoot.join (launch.operationId ++ ".receipt")
  executable : launch.executable = request.stateRoot.join (launch.operationId ++ ".executable")
  workload : launch.workload = request.workload
  production : launch.productionControl = isRealRoot request.sysfsRoot

/-- A call that starts no other supervisor. -/
def Launching (request : RunRequest) (op : HostOp) : Prop :=
  ∀ launch, op = .coordinate launch → request.Launches launch

theorem launching_quiet (request : RunRequest) (op : HostOp) (h : op.quiet = true) :
    request.Launching op := by
  intro launch heq
  rw [heq] at h
  cases h

theorem permits_launching (codec : Codec) (request : RunRequest) (id : String)
    (recorded : Request) :
    Permits codec request.Launching id recorded where
  quiet := request.launching_quiet
  write _ _ _ h := by cases h
  record _ _ _ _ h := by cases h

/-- What is accepted is the request under a valid id. -/
structure Accepts (request : RunRequest) (accepted : Acceptance) : Prop where
  valid : validOperationId accepted.operationId = true
  chosen : ∀ id ∈ request.operationId, accepted.operationId = id
  receipt : accepted.recorded.acceptedReceipt =
    request.stateRoot.join (accepted.operationId ++ ".receipt")
  executable : accepted.recorded.acceptedExecutable =
    request.stateRoot.join (accepted.operationId ++ ".executable")

variable {codec : Codec}

/-- What `acceptRequest` does with the id it chose. -/
theorem gives_acceptance {request : RunRequest} {operationId : String} {receipt : BuildReceipt}
    {recorded : Request} (hchosen : ∀ id ∈ request.operationId, operationId = id)
    (hreceipt : recorded.acceptedReceipt = request.stateRoot.join (operationId ++ ".receipt"))
    (hexecutable : recorded.acceptedExecutable =
      request.stateRoot.join (operationId ++ ".executable")) :
    Gives request.Accepts (do
      journalPath operationId
      return Acceptance.mk operationId receipt recorded) := by
  rw [journalPath]
  cases hvalid : validOperationId operationId with
  | true => exact gives_pure ⟨hvalid, hchosen, hreceipt, hexecutable⟩
  | false => exact gives_throw _

/-- An accepted request keeps what was asked for. -/
theorem gives_acceptRequest (request : RunRequest) :
    Gives request.Accepts (acceptRequest codec request) := by
  refine gives_bind fun _ => gives_bind fun _ => gives_bind fun _ => gives_bind fun receipt => ?_
  refine gives_bind fun _ => gives_bind fun _ => gives_bind fun receiptHash => ?_
  cases hid : request.operationId with
  | none =>
    refine gives_bind fun operationId => gives_acceptance ?_ rfl rfl
    rw [hid]
    intro id h
    cases h
  | some id =>
    refine gives_acceptance ?_ rfl rfl
    rw [hid]
    intro other h
    exact Option.some.inj h

/-- A supervised run launches the supervisor for its own request only. -/
theorem launching_superviseRun (request : RunRequest) {accepted : Acceptance}
    (h : request.Accepts accepted) (clientWatch : Bool) (coordinator : Actor) (j : Journal) :
    Within request.Launching
      (superviseRun codec request accepted clientWatch coordinator j) := by
  have hpermits := request.permits_launching codec
  refine within_transition request.launching_quiet fun _ => (hpermits ..).store.bind fun _ => ?_
  refine within_transition request.launching_quiet fun _ => (hpermits ..).store.bind fun _ => ?_
  refine within_call ?_ fun result => ?_
  · intro launch heq
    cases heq
    exact ⟨h.valid, h.chosen, h.receipt, h.executable, rfl, rfl⟩
  · cases result with
    | ok outcome => exact (hpermits ..).finishRun request coordinator outcome
    | error error =>
      refine (hpermits ..).reconcileRuntimeOutcome fun j' _ => ?_
      exact within_actorTransition request.launching_quiet fun _ _ =>
        (hpermits ..).store.bind fun _ => within_throw _

/-- So does a run of a new operation. -/
theorem launching_executeRun (request : RunRequest) {accepted : Acceptance}
    (h : request.Accepts accepted) :
    Within request.Launching (executeRun codec request accepted) := by
  have hquiet := request.launching_quiet
  have hpermits := request.permits_launching codec
  have hwrite (path : PathBuf) (bytes : Bytes) :
      request.Launching (.atomicWrite path bytes) := by
    intro launch heq
    cases heq
  refine (within_requireNoUnfinishedJournal hquiet).bind fun _ =>
    within_call (hquiet _ rfl) fun _ => ?_
  refine (within_ofExcept _).bind fun _ => ?_
  refine (within_acceptSnapshots hquiet hwrite accepted).bind fun _ => ?_
  refine within_call (hquiet _ rfl) fun _ => (within_ofExcept _).bind fun _ => ?_
  refine within_call (hquiet _ rfl) fun _ => (within_readBootId hquiet).bind fun _ => ?_
  refine Within.bind (within_call (hquiet _ rfl) fun _ => within_pure _) fun j => ?_
  refine (within_inventory hquiet _ _).bind fun entries => ?_
  refine (hpermits ..).store.bind fun _ => ?_
  refine (Permits.apply (j := j) (hpermits "" j.request) _ _).attempt.bind fun applied => ?_
  cases applied with
  | ok _ => exact launching_superviseRun request h _ _ _
  | error error =>
    refine ((hpermits ..).restore _).attempt.bind fun restored => ?_
    cases restored with
    | ok _ => exact within_throw _
    | error _ => exact within_throw _

/-- Every supervisor a run starts is started under a valid id, on the run's own snapshots. -/
theorem launching_coordinateRun (request : RunRequest) :
    Within request.Launching (coordinateRun codec request) := by
  have hquiet := request.launching_quiet
  refine Within.bind (.ite (within_throw _) (.ite (within_throw _) (within_pure _))) fun cpus => ?_
  have hother (wait : Bool) : request.Launching (.lockFor wait) := by
    intro launch heq
    cases heq
  have hinactive : request.Launching .requireInactive := by
    intro launch heq
    cases heq
  have hexists (id : String) : request.Launching (.journalExists id) := by
    intro launch heq
    cases heq
  refine (within_acceptRequest hquiet hother hinactive _).bind_gives
    (gives_acceptRequest { request with cpus := cpus }) fun accepted haccepted => ?_
  refine within_call (hexists _) fun _ => ?_
  refine .ite (within_replayJournal hquiet accepted) ?_
  apply (launching_executeRun { request with cpus := cpus } haccepted).mono
  intro op hop launch heq
  have h := hop launch heq
  exact ⟨h.valid, h.chosen, h.receipt, h.executable, h.workload, h.production⟩

end RunRequest

section RoundTrips

variable {operationId : String}

theorem validOperationId_slash (h : validOperationId operationId = true) :
    '/' ∉ operationId.toList := by
  intro hmem
  rw [validOperationId, Bool.and_eq_true, List.all_eq_true] at h
  exact absurd (h.2 '/' hmem) (by decide)

/-- A file of the state directory that is named after the operation. -/
theorem written_suffixed (h : validOperationId operationId = true) {suffix : String}
    (hsuffix : 1 < suffix.length) (hslash : '/' ∉ suffix.toList) :
    operationId ++ suffix ≠ "" ∧ operationId ++ suffix ≠ "." ∧
      '/' ∉ (operationId ++ suffix).toList := by
  have hlength : (operationId ++ suffix).length = operationId.length + suffix.length :=
    String.length_append ..
  refine ⟨?_, ?_, ?_⟩
  · intro heq
    rw [heq] at hlength
    have hzero : "".length = 0 := rfl
    omega
  · intro heq
    rw [heq] at hlength
    have hone : ".".length = 1 := rfl
    omega
  · rw [String.toList_append, List.mem_append]
    exact not_or.mpr ⟨validOperationId_slash h, hslash⟩

/-- A generated operation id does not start with a hyphen. -/
theorem not_hyphenated_newOperationId (millis pid : ℕ) :
    ¬ Hyphenated (newOperationId millis pid) := by
  intro h
  have hne : millis.repr.toList ≠ [] := by
    rw [Nat.toList_repr]
    exact Nat.toDigits_ne_nil
  have hhead := h.1
  rw [newOperationId, String.toList_append, String.toList_append, List.append_assoc,
    List.head?_append_of_ne_nil _ hne] at hhead
  have hmem : '-' ∈ millis.repr.toList := List.mem_of_mem_head? hhead
  rw [Nat.toList_repr] at hmem
  exact absurd (Nat.isDigit_of_mem_toDigits (by decide) le_rfl hmem) (by decide)

/-- A request as the command line and `cpuidle::run` make it: absolute paths, machine integers, at
least one CPU and a workload. -/
structure RunRequest.Requested (request : RunRequest) : Prop where
  receiptPath : request.receiptPath.Written
  sysfsRoot : request.sysfsRoot.Written
  stateRoot : request.stateRoot.Written
  cpus : request.cpus ≠ []
  cpu : ∀ cpu ∈ request.cpus, cpu ≤ u64Max
  timeout : request.timeout % 1000000000 = 0 ∧ request.timeout / 1000000000 ≤ u64Max
  workload : request.workload ≠ []

variable (clap : Parser) (pid coordinatorPid : ℕ) (request : RunRequest)
  (launch : CoordinateRequest)

/-- The privileged coordinator reads the request of its client. -/
def RunRoundTrips : Prop :=
  ∃ run, Cli.tryParse clap (sudoRun pid request) = some (.run run) ∧ run.coordinator = true ∧
    run.request = { request with clientPid := some pid }

/-- The privileged process reads the operation that is to be shown or recovered. -/
def ControlRoundTrips : Prop :=
  Cli.tryParse clap (sudoControl "status" request.operationId request.sysfsRoot
      request.stateRoot) =
    some (.status (reexecutedControl request.operationId request.sysfsRoot request.stateRoot)) ∧
  Cli.tryParse clap (sudoControl "recover" request.operationId request.sysfsRoot
      request.stateRoot) =
    some (.recover (reexecutedControl request.operationId request.sysfsRoot request.stateRoot))

/-- The supervisor reads what it is to supervise. -/
def SupervisorRoundTrips : Prop :=
  Cli.tryParse clap (supervisorArguments coordinatorPid request.stateRoot launch) =
    some (.workload (supervisorCommand coordinatorPid request.stateRoot launch))

variable {clap pid coordinatorPid request launch}

/-- What a requested run launches can be launched. -/
theorem RunRequest.Requested.launchable (h : request.Requested) (hlaunch : request.Launches launch)
    (hcoordinator : coordinatorPid ≤ u32Max) (huid : launch.uid ≤ u32Max)
    (hgid : launch.gid ≤ u32Max) : Launchable coordinatorPid request.stateRoot launch where
  coordinatorPid := hcoordinator
  runtime := h.stateRoot.join (written_suffixed hlaunch.valid (by decide) (by decide))
  receipt := by
    rw [hlaunch.receipt]
    exact h.stateRoot.join (written_suffixed hlaunch.valid (by decide) (by decide))
  executable := by
    rw [hlaunch.executable]
    exact h.stateRoot.join (written_suffixed hlaunch.valid (by decide) (by decide))
  uid := huid
  gid := hgid

/-- A requested run survives the way through its arguments. -/
theorem RunRequest.Requested.runRoundTrips (h : request.Requested) (hpid : pid ≤ u32Max)
    (hid : ∀ id ∈ request.operationId, ¬ Hyphenated id) : RunRoundTrips clap pid request := by
  refine ⟨reexecutedRun pid request, ?_, rfl, ?_⟩
  · rw [sudoRun_eq, tryParse_run, clap.parse_tokens_escaped wellNamed_run (by decide)
      (fits_runItems pid request h.cpus h.workload)
      (plain_runItems pid request h.receiptPath h.sysfsRoot h.stateRoot hid), Option.bind_some,
      fromMatches_runItems pid request clap hpid h.receiptPath h.sysfsRoot h.stateRoot h.cpu
        h.timeout.2]
    rfl
  · have htimeout : request.timeout / 1000000000 * 1000000000 = request.timeout := by
      have hmod := h.timeout.1
      omega
    rw [Run.request, reexecutedRun]
    simp only [htimeout]

theorem RunRequest.Requested.controlRoundTrips (h : request.Requested)
    (hid : ∀ id ∈ request.operationId, ¬ Hyphenated id) : ControlRoundTrips clap request :=
  sudoControl_read clap h.sysfsRoot h.stateRoot hid

end RoundTrips

/-- Each of the three argument lists is read back as it was meant exactly when the operation id
does not look like an option. `journal_path` admits ids that do. -/
theorem reexec_round_trips_iff (clap : Parser) (pid coordinatorPid : ℕ) {request : RunRequest}
    {launch : CoordinateRequest} (hrequested : request.Requested)
    (hlaunch : request.Launches launch)
    (hgenerated : request.operationId = none →
      ∃ millis process, launch.operationId = newOperationId millis process)
    (hpid : pid ≤ u32Max) (hcoordinator : coordinatorPid ≤ u32Max) (huid : launch.uid ≤ u32Max)
    (hgid : launch.gid ≤ u32Max) :
    (∀ codec, Within request.Launching (coordinateRun codec request)) ∧
    (RunRoundTrips clap pid request ↔ ∀ id ∈ request.operationId, ¬ Hyphenated id) ∧
    (ControlRoundTrips clap request ↔ ∀ id ∈ request.operationId, ¬ Hyphenated id) ∧
    (SupervisorRoundTrips clap coordinatorPid request launch ↔
      ∀ id ∈ request.operationId, ¬ Hyphenated id) := by
  have hlaunchable := hrequested.launchable hlaunch hcoordinator huid hgid
  refine ⟨fun _ => request.launching_coordinateRun, ⟨?_, hrequested.runRoundTrips hpid⟩,
    ⟨?_, hrequested.controlRoundTrips⟩, ⟨?_, ?_⟩⟩
  · rintro ⟨run, hparse, _⟩ id hid hhyphen
    rw [sudoRun_refused pid request clap hid hhyphen hrequested.receiptPath hrequested.sysfsRoot
      hrequested.stateRoot] at hparse
    cases hparse
  · intro hcontrol id hid hhyphen
    have hstatus := hcontrol.1
    rw [sudoControl_eq, Cli.tryParse, if_neg (by decide), if_pos rfl] at hstatus
    obtain ⟨m, hparse, heq⟩ := Option.map_eq_some_iff.mp hstatus
    have hpositional : m.positional = request.operationId :=
      congrArg Control.operationId (Command.status.inj heq)
    rw [hid] at hparse hpositional
    exact positional_ne _ _ clap hrequested.sysfsRoot hrequested.stateRoot hhyphen hparse
      hpositional
  · intro hsupervisor id hid hhyphen
    rw [← hlaunch.chosen id hid] at hhyphen
    have hrefused := hlaunchable.refused clap hhyphen
    rw [SupervisorRoundTrips, hrefused] at hsupervisor
    cases hsupervisor
  · intro hid
    apply hlaunchable.parsed clap
    cases hoperation : request.operationId with
    | none =>
      obtain ⟨millis, process, heq⟩ := hgenerated hoperation
      rw [heq]
      exact not_hyphenated_newOperationId millis process
    | some id =>
      rw [hlaunch.chosen id hoperation]
      exact hid id hoperation

def sampleReexecuted : RunRequest where
  operationId := some "op-1"
  receiptPath := ⟨true, ["work", "receipt.json"]⟩
  cpus := [2, 3]
  timeout := 900000000000
  workload := ["--latency", ""]
  sysfsRoot := realSysfsRoot
  stateRoot := realStateRoot
  clientPid := none

def sampleRelaunched : CoordinateRequest where
  operationId := "op-1"
  receipt := realStateRoot.join "op-1.receipt"
  executable := realStateRoot.join "op-1.executable"
  workload := ["--latency", ""]
  uid := 1000
  gid := 1000
  timeout := 900000000000
  clientWatch := true
  productionControl := true

theorem sampleReexecuted_requested : sampleReexecuted.Requested := by
  refine ⟨⟨?_, ?_⟩, ⟨?_, ?_⟩, ⟨?_, ?_⟩, ?_, ?_, ?_, ?_⟩ <;> decide

theorem sampleRelaunched_launches : sampleReexecuted.Launches sampleRelaunched := by
  refine ⟨?_, ?_, ?_, ?_, ?_, ?_⟩ <;> decide

theorem reexec_round_trips_sample :
    RunRoundTrips documented 7 sampleReexecuted ∧
      SupervisorRoundTrips documented 8 sampleReexecuted sampleRelaunched := by
  have h := reexec_round_trips_iff documented 7 8 sampleReexecuted_requested
    sampleRelaunched_launches (fun h => by cases h) (by decide) (by decide) (by decide)
    (by decide)
  exact ⟨h.2.1.mpr (by decide), h.2.2.2.mpr (by decide)⟩

end Snoozer.Benchctl
