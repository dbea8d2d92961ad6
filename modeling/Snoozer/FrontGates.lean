import Snoozer.AnsweredRuns
import Snoozer.ReexecArguments
import Snoozer.Results

/-! What `cpuidle::run`, `status` and `recover` do before they operate: the paths are resolved, and
where they lead to the real sysfs Benchctl starts itself again under `sudo`, as the coordinator. -/
namespace Snoozer.Benchctl
open CommandLine Interactive Fallible Results

/-- What is behind the gates, on resolved paths: `coordinate_run`, and the rest of `status` and of
`recover`. The supervisor of a workload has no gates. -/
inductive Operation where
  | run (request : RunRequest)
  | status (operationId : Option String) (sysfsRoot stateRoot : PathBuf)
  | recover (operationId : Option String) (sysfsRoot stateRoot : PathBuf)
  | supervise (value : Workload)
  deriving DecidableEq, Repr

structure ForwardedStatus where
  success : Bool
  display : String
  deriving DecidableEq, Repr

/-- Of `sudo -- executable arguments` the part behind the escape. -/
inductive FrontOp where
  | currentDir
  | canonicalize (path : PathBuf)
  | currentExe
  | processId
  | geteuid
  | underSudo (executable : PathBuf) (arguments : List Token)
  | operate (operation : Operation)
  deriving DecidableEq, Repr

abbrev FrontAns : FrontOp → Type
  | .currentDir | .canonicalize _ | .currentExe => Except IoError PathBuf
  | .processId | .geteuid => ℕ
  | .underSudo _ _ => Except IoError ForwardedStatus
  | .operate _ => Except BenchError Unit

abbrev FrontEvent := Event FrontOp FrontAns

abbrev Front := Fallible FrontOp FrontAns BenchError

def frontIo {α : Type} (operation : String) (result : Except IoError α) : Front α :=
  fromExcept (result.mapError (BenchError.io operation))

/-- Joining a relative path; only its first component may be a dot. -/
def PathBuf.joinRelative (directory path : PathBuf) : PathBuf :=
  { directory with components := directory.components ++ path.components.filter (· ≠ ".") }

def absolute (path : PathBuf) : Front PathBuf :=
  if path.absolute then
    return path
  else do
    let directory ← frontIo "resolving current directory" (← ask FrontOp.currentDir)
    return directory.joinRelative path

def absoluteExisting (path : PathBuf) (operation : String) : Front PathBuf := do
  let path ← absolute path
  frontIo operation (← ask (FrontOp.canonicalize path))

def absoluteWithoutExisting (path : PathBuf) : Front PathBuf := do
  let path ← absolute path
  if path = ⟨true, []⟩ ∨ ".." ∈ path.components then
    throw (.preflight "state root must be an absolute non-root path without traversal")
  else
    return path

def validateProductionStateRoot (sysfsRoot stateRoot : PathBuf) : Except BenchError Unit :=
  if isRealRoot sysfsRoot = true ∧ stateRoot ≠ realStateRoot then
    .error (.preflight
      "real sysfs operations require the fixed root-owned Benchctl state directory")
  else
    .ok ()

def coordinatorRequired : BenchError :=
  .preflight "real sysfs operations require the hidden privileged coordinator"

def requireCoordinatorPrivilege (sysfsRoot : PathBuf) (coordinator : Bool) : Front Unit :=
  if isRealRoot sysfsRoot then
    if coordinator then do
      let euid ← ask FrontOp.geteuid
      if euid ≠ 0 then throw coordinatorRequired else return ()
    else
      throw coordinatorRequired
  else
    return ()

structure Roots where
  sysfsRoot : PathBuf
  stateRoot : PathBuf
  deriving DecidableEq, Repr

/-- The lines that the three commands begin with. -/
def resolveRoots (sysfsRoot stateRoot : PathBuf) : Front Roots := do
  let sysfsRoot ← absoluteExisting sysfsRoot "canonicalizing sysfs root"
  let stateRoot ← absoluteWithoutExisting stateRoot
  fromExcept (validateProductionStateRoot sysfsRoot stateRoot)
  return ⟨sysfsRoot, stateRoot⟩

/-- The last call of a command. -/
inductive Next where
  | underSudo (executable : PathBuf) (arguments : List Token)
  | operate (operation : Operation)
  deriving DecidableEq, Repr

/-- A client of the real sysfs goes on under `sudo`, everyone else has to be privileged for it. -/
def passGates (coordinator : Bool) (sysfsRoot : PathBuf) (arguments : Front (List Token))
    (operation : Front Operation) : Front Next :=
  if isRealRoot sysfsRoot = true ∧ coordinator = false then do
    let executable ← frontIo "resolving benchctl executable" (← ask FrontOp.currentExe)
    let arguments ← arguments
    return .underSudo executable arguments
  else do
    requireCoordinatorPrivilege sysfsRoot coordinator
    let operation ← operation
    return .operate operation

def requireClient (request : RunRequest) : Front Operation :=
  if isRealRoot request.sysfsRoot = true ∧ request.clientPid = none then
    throw (.preflight "privileged run coordinator requires its unprivileged client PID")
  else
    return .run request

def sudoRunArguments (request : RunRequest) : Front (List Token) := do
  let pid ← ask FrontOp.processId
  return sudoRun pid request

/-- The request with what its paths have been resolved to. -/
def RunRequest.withPaths (request : RunRequest) (receiptPath : PathBuf) (roots : Roots) :
    RunRequest :=
  { request with
    receiptPath := receiptPath
    sysfsRoot := roots.sysfsRoot
    stateRoot := roots.stateRoot }

/-- `cpuidle::run`, up to its last call. -/
def runNext (coordinator : Bool) (request : RunRequest) : Front Next := do
  let receiptPath ← absolute request.receiptPath
  let roots ← resolveRoots request.sysfsRoot request.stateRoot
  let request := request.withPaths receiptPath roots
  passGates coordinator request.sysfsRoot (sudoRunArguments request) (requireClient request)

/-- `cpuidle::status` and `cpuidle::recover`, up to their operation. -/
def controlNext (action : Token) (operation : Option String → PathBuf → PathBuf → Operation)
    (value : Control) : Front Next := do
  let roots ← resolveRoots value.sysfsRoot value.stateRoot
  passGates value.coordinator roots.sysfsRoot
    (pure (sudoControl action value.operationId roots.sysfsRoot roots.stateRoot))
    (pure (operation value.operationId roots.sysfsRoot roots.stateRoot))

/-- `cli::run` on a command. -/
def Command.next : Command → Front Next
  | .run value => runNext value.coordinator value.request
  | .status value => controlNext "status" .status value
  | .recover value => controlNext "recover" .recover value
  | .workload value => return .operate (.supervise value)

def forwardStatus (result : Except IoError ForwardedStatus) : Except BenchError Unit :=
  (result.mapError (BenchError.io "starting privileged coordinator")).bind fun status =>
    if status.success then .ok ()
    else .error (.workload s!"privileged coordinator exited with {status.display}")

def Next.op : Next → FrontOp
  | .underSudo executable arguments => .underSudo executable arguments
  | .operate operation => .operate operation

def Next.result : (next : Next) → FrontAns next.op → Except BenchError Unit
  | .underSudo _ _, result => forwardStatus result
  | .operate _, result => result

def Command.perform (command : Command) : Front Unit := do
  let next ← command.next
  let x ← ask next.op
  fromExcept (next.result x)

/-- An absolute path stays as it is, another one is taken from the current directory. -/
def AbsoluteOf (t : List FrontEvent) (path path' : PathBuf) : Prop :=
  (path.absolute = true ∧ path' = path) ∨
    path.absolute = false ∧ ∃ directory, (⟨.currentDir, .ok directory⟩ : FrontEvent) ∈ t ∧
      path' = directory.joinRelative path

structure RootsResolved (t : List FrontEvent) (sysfsRoot stateRoot : PathBuf) (roots : Roots) :
    Prop where
  sysfs : ∃ path, AbsoluteOf t sysfsRoot path ∧
    (⟨.canonicalize path, .ok roots.sysfsRoot⟩ : FrontEvent) ∈ t
  state : AbsoluteOf t stateRoot roots.stateRoot
  plain : roots.stateRoot ≠ ⟨true, []⟩ ∧ ".." ∉ roots.stateRoot.components
  fixed : isRealRoot roots.sysfsRoot = true → roots.stateRoot = realStateRoot

section Decisions

variable {t t' : List FrontEvent} {path path' sysfsRoot stateRoot : PathBuf} {roots : Roots}
  {coordinator : Bool} {next : Next}

theorem AbsoluteOf.mono (h : AbsoluteOf t path path') (hsub : t ⊆ t') :
    AbsoluteOf t' path path' := by
  rcases h with h | ⟨hrelative, directory, hmem, rfl⟩
  · exact Or.inl h
  · exact Or.inr ⟨hrelative, directory, hsub hmem, rfl⟩

theorem AbsoluteOf.eq_self (h : AbsoluteOf t path path') (habsolute : path.absolute = true) :
    path' = path := by
  rcases h with ⟨-, rfl⟩ | ⟨hrelative, -⟩
  · rfl
  · rw [habsolute] at hrelative
    cases hrelative

theorem RootsResolved.mono (h : RootsResolved t sysfsRoot stateRoot roots) (hsub : t ⊆ t') :
    RootsResolved t' sysfsRoot stateRoot roots where
  sysfs := by
    obtain ⟨path, hpath, hmem⟩ := h.sysfs
    exact ⟨path, hpath.mono hsub, hsub hmem⟩
  state := h.state.mono hsub
  plain := h.plain
  fixed := h.fixed

theorem answers_frontIo {operation : String} {result : Except IoError PathBuf} :
    Answers (frontIo operation result) t (.ok path) ↔ t = [] ∧ result = .ok path := by
  unfold frontIo
  rw [answers_fromExcept, mapError_eq_ok]

theorem answers_frontIo_bind {α : Type} {operation : String} {result : Except IoError PathBuf}
    {f : PathBuf → Front α} {a : α} : Answers (frontIo operation result >>= f) t (.ok a) ↔
      ∃ path, Answers (f path) t (.ok a) ∧ result = .ok path :=
  answers_mapError_bind

/-- The absolute path is the given one, taken from the current directory. -/
theorem answers_absolute (h : Answers (absolute path) t (.ok path')) : AbsoluteOf t path path' := by
  unfold absolute at h
  cases habsolute : path.absolute with
  | true =>
    rw [habsolute, if_pos rfl] at h
    exact Or.inl ⟨habsolute, (answers_pure.mp h).2.symm⟩
  | false =>
    rw [habsolute, if_neg Bool.false_ne_true] at h
    obtain ⟨x, rest, h₁, rfl⟩ := answers_ask_bind.mp h
    obtain ⟨directory, h₂, rfl⟩ := answers_frontIo_bind.mp h₁
    obtain ⟨rfl, rfl⟩ := answers_pure.mp h₂
    exact Or.inr ⟨habsolute, directory, List.mem_cons_self, rfl⟩

theorem answers_absoluteExisting {operation : String}
    (h : Answers (absoluteExisting path operation) t (.ok path')) :
    ∃ absolute, AbsoluteOf t path absolute ∧
      (⟨.canonicalize absolute, .ok path'⟩ : FrontEvent) ∈ t := by
  obtain ⟨first, rest, absolute, habsolute, h₁, rfl⟩ := answers_bind.mp h
  obtain ⟨x, last, h₂, rfl⟩ := answers_ask_bind.mp h₁
  obtain ⟨rfl, rfl⟩ := answers_frontIo.mp h₂
  exact ⟨absolute, (answers_absolute habsolute).mono (List.subset_append_left _ _),
    List.mem_append_right _ List.mem_cons_self⟩

theorem answers_absoluteWithoutExisting (h : Answers (absoluteWithoutExisting path) t (.ok path')) :
    AbsoluteOf t path path' ∧ path' ≠ ⟨true, []⟩ ∧ ".." ∉ path'.components := by
  obtain ⟨first, rest, absolute, habsolute, h₁, rfl⟩ := answers_bind.mp h
  obtain ⟨hplain, h₂⟩ := answers_guard.mp h₁
  obtain ⟨rfl, rfl⟩ := answers_pure.mp h₂
  exact ⟨(answers_absolute habsolute).mono (List.subset_append_left _ _), not_or.mp hplain⟩

/-- The resolved roots are the given ones or their defaults, made absolute. -/
theorem answers_resolveRoots (h : Answers (resolveRoots sysfsRoot stateRoot) t (.ok roots)) :
    RootsResolved t sysfsRoot stateRoot roots := by
  obtain ⟨first, rest, sysfs, hsysfs, h₁, rfl⟩ := answers_bind.mp h
  obtain ⟨second, last, state, hstate, h₂, rfl⟩ := answers_bind.mp h₁
  obtain ⟨u, h₃, hfixed⟩ := answers_fromExcept_bind.mp h₂
  obtain ⟨rfl, rfl⟩ := answers_pure.mp h₃
  obtain ⟨path, hpath, hmem⟩ := answers_absoluteExisting hsysfs
  obtain ⟨habsolute, hplain⟩ := answers_absoluteWithoutExisting hstate
  have hfirst : first ⊆ first ++ (second ++ []) := List.subset_append_left _ _
  have hsecond : second ⊆ first ++ (second ++ []) := fun e he =>
    List.mem_append_right _ (List.mem_append_left _ he)
  refine ⟨⟨path, hpath.mono hfirst, hfirst hmem⟩, habsolute.mono hsecond, hplain, ?_⟩
  intro hreal
  unfold validateProductionStateRoot at hfixed
  split at hfixed
  · cases hfixed
  · next hallowed =>
    by_contra hother
    exact hallowed ⟨hreal, hother⟩

/-- The real root is coordinated on by the superuser only. -/
theorem answers_requireCoordinatorPrivilege {u : Unit}
    (h : Answers (requireCoordinatorPrivilege sysfsRoot coordinator) t (.ok u)) :
    isRealRoot sysfsRoot = true → coordinator = true ∧ (⟨.geteuid, 0⟩ : FrontEvent) ∈ t := by
  intro hreal
  -- the gate stands open for every other root, so only the real one is looked at
  unfold requireCoordinatorPrivilege at h
  rw [if_pos hreal] at h
  cases coordinator with
  | false => exact absurd h answers_throw
  | true =>
    obtain ⟨euid, rest, h₁, rfl⟩ := answers_ask_bind.mp h
    obtain ⟨hroot, -⟩ := answers_guard.mp h₁
    obtain rfl : euid = 0 := not_not.mp hroot
    exact ⟨rfl, List.mem_cons_self⟩

/-- Which of the two ways a command goes on. -/
theorem answers_passGates {arguments : Front (List Token)} {operation : Front Operation}
    (h : Answers (passGates coordinator sysfsRoot arguments operation) t (.ok next)) :
    (isRealRoot sysfsRoot = true ∧ coordinator = false ∧ ∃ executable words rest,
      (⟨.currentExe, .ok executable⟩ : FrontEvent) ∈ t ∧ Answers arguments rest (.ok words) ∧
      rest ⊆ t ∧ next = .underSudo executable words) ∨
    (isRealRoot sysfsRoot = true → coordinator = true ∧ (⟨.geteuid, 0⟩ : FrontEvent) ∈ t) ∧
      ∃ chosen rest, Answers operation rest (.ok chosen) ∧ next = .operate chosen := by
  unfold passGates at h
  by_cases hclient : isRealRoot sysfsRoot = true ∧ coordinator = false
  · -- the executable is asked for before the arguments are made
    rw [if_pos hclient] at h
    obtain ⟨x, rest, h₁, rfl⟩ := answers_ask_bind.mp h
    obtain ⟨executable, h₂, rfl⟩ := answers_frontIo_bind.mp h₁
    obtain ⟨words, last, arguments, hwords, h₃, rfl⟩ := answers_bind.mp h₂
    obtain ⟨rfl, rfl⟩ := answers_pure.mp h₃
    refine Or.inl ⟨hclient.1, hclient.2, executable, arguments, words, List.mem_cons_self, hwords,
      ?_, rfl⟩
    intro e he
    exact List.mem_cons_of_mem _ (List.mem_append_left _ he)
  · rw [if_neg hclient] at h
    obtain ⟨first, rest, u, hprivilege, h₁, rfl⟩ := answers_bind.mp h
    obtain ⟨words, last, chosen, hchosen, h₂, rfl⟩ := answers_bind.mp h₁
    obtain ⟨rfl, rfl⟩ := answers_pure.mp h₂
    refine Or.inr ⟨?_, chosen, words, hchosen, rfl⟩
    intro hreal
    obtain ⟨hcoordinator, hmem⟩ := answers_requireCoordinatorPrivilege hprivilege hreal
    exact ⟨hcoordinator, List.mem_append_left _ hmem⟩

end Decisions

/-- The request of a run after its paths have been resolved. -/
structure RunRequest.Resolved (t : List FrontEvent) (request resolved : RunRequest) : Prop where
  receiptPath : AbsoluteOf t request.receiptPath resolved.receiptPath
  roots : RootsResolved t request.sysfsRoot request.stateRoot
    ⟨resolved.sysfsRoot, resolved.stateRoot⟩
  same : resolved = request.withPaths resolved.receiptPath
    ⟨resolved.sysfsRoot, resolved.stateRoot⟩

def Command.coordinator : Command → Bool
  | .run value => value.coordinator
  | .status value | .recover value => value.coordinator
  | .workload _ => false

def Command.operationId : Command → Option String
  | .run value => value.operationId
  | .status value | .recover value => value.operationId
  | .workload _ => none

/-- The operation that the command means, once its paths have been resolved. -/
def Command.Means (t : List FrontEvent) : Command → Operation → Prop
  | .run value, operation =>
    ∃ resolved, value.request.Resolved t resolved ∧ operation = .run resolved
  | .status value, operation => ∃ roots, RootsResolved t value.sysfsRoot value.stateRoot roots ∧
    operation = .status value.operationId roots.sysfsRoot roots.stateRoot
  | .recover value, operation => ∃ roots, RootsResolved t value.sysfsRoot value.stateRoot roots ∧
    operation = .recover value.operationId roots.sysfsRoot roots.stateRoot
  | .workload value, operation => operation = .supervise value

/-- The arguments for `sudo`, given the operation that is meant. -/
def Operation.sudoArguments (pid : ℕ) : Operation → List Token
  | .run request => sudoRun pid request
  | .status operationId sysfsRoot stateRoot =>
    sudoControl "status" operationId sysfsRoot stateRoot
  | .recover operationId sysfsRoot stateRoot =>
    sudoControl "recover" operationId sysfsRoot stateRoot
  | .supervise _ => []

/-- The operation as the coordinator has it, which knows its client. -/
def Operation.coordinated (pid : ℕ) : Operation → Operation
  | .run request => .run { request with clientPid := some pid }
  | operation => operation

/-- It works on the real sysfs. -/
def Operation.real : Operation → Bool
  | .run request => isRealRoot request.sysfsRoot
  | .status _ sysfsRoot _ | .recover _ sysfsRoot _ => isRealRoot sysfsRoot
  | .supervise _ => false

def Operation.stateRoot? : Operation → Option PathBuf
  | .run request => some request.stateRoot
  | .status _ _ stateRoot | .recover _ _ stateRoot => some stateRoot
  | .supervise _ => none

/-- The gates that an operation on the real sysfs has passed. -/
structure Operation.Guarded (t : List FrontEvent) (coordinator : Bool) (operation : Operation) :
    Prop where
  coordinator : coordinator = true
  euid : (⟨.geteuid, 0⟩ : FrontEvent) ∈ t
  stateRoot : operation.stateRoot? = some realStateRoot
  client : ∀ request, operation = .run request → request.clientPid ≠ none

/-- Both ways on, with the operation that is meant. -/
def Next.Follows (t : List FrontEvent) (command : Command) (operation : Operation) (next : Next) :
    Prop :=
  (operation.real = true ∧ command.coordinator = false ∧ operation.stateRoot? = some realStateRoot ∧
    ∃ executable pid, (⟨.currentExe, .ok executable⟩ : FrontEvent) ∈ t ∧
      ((∃ request, operation = .run request) → (⟨.processId, pid⟩ : FrontEvent) ∈ t) ∧
      next = .underSudo executable (operation.sudoArguments pid)) ∨
  (operation.real = true → operation.Guarded t command.coordinator) ∧ next = .operate operation

section Commands

variable {t t' : List FrontEvent} {command : Command} {next : Next} {operation : Operation}

theorem answers_requireClient {request : RunRequest}
    (h : Answers (requireClient request) t (.ok operation)) :
    operation = .run request ∧
      (isRealRoot request.sysfsRoot = true → request.clientPid ≠ none) := by
  obtain ⟨hclient, h₁⟩ := answers_guard.mp h
  obtain ⟨-, rfl⟩ := answers_pure.mp h₁
  exact ⟨rfl, fun hreal hnone => hclient ⟨hreal, hnone⟩⟩

/-- What follows a run command is the operation it means. -/
theorem answers_runNext {value : Run}
    (h : Answers (runNext value.coordinator value.request) t (.ok next)) :
    ∃ operation, (Command.run value).Means t operation ∧
      Next.Follows t (.run value) operation next := by
  obtain ⟨first, rest, receiptPath, hreceipt, h₁, rfl⟩ := answers_bind.mp h
  obtain ⟨second, last, roots, hroots, h₂, rfl⟩ := answers_bind.mp h₁
  have hfirst : first ⊆ first ++ (second ++ last) := List.subset_append_left _ _
  have hsecond : second ⊆ first ++ (second ++ last) := fun e he =>
    List.mem_append_right _ (List.mem_append_left _ he)
  have hlast : last ⊆ first ++ (second ++ last) := fun e he =>
    List.mem_append_right _ (List.mem_append_right _ he)
  have hresolved : value.request.Resolved (first ++ (second ++ last))
      (value.request.withPaths receiptPath roots) :=
    ⟨(answers_absolute hreceipt).mono hfirst, (answers_resolveRoots hroots).mono hsecond, rfl⟩
  refine ⟨.run (value.request.withPaths receiptPath roots), ⟨_, hresolved, rfl⟩, ?_⟩
  rcases answers_passGates h₂ with
    ⟨hreal, hclient, executable, words, inner, hexe, hwords, hsub, rfl⟩ |
      ⟨hguarded, chosen, inner, hchosen, rfl⟩
  · -- the only call of `sudo_run` is for its own PID
    obtain ⟨pid, tail, hpid, rfl⟩ := answers_ask_bind.mp hwords
    obtain ⟨-, rfl⟩ := answers_pure.mp hpid
    exact Or.inl ⟨hreal, hclient, congrArg some (hresolved.roots.fixed hreal), executable, pid,
      hlast hexe, fun _ => hlast (hsub List.mem_cons_self), rfl⟩
  · obtain ⟨rfl, hclient⟩ := answers_requireClient hchosen
    refine Or.inr ⟨fun hreal => ?_, rfl⟩
    obtain ⟨hcoordinator, heuid⟩ := hguarded hreal
    refine ⟨hcoordinator, hlast heuid, congrArg some (hresolved.roots.fixed hreal), ?_⟩
    intro request heq
    cases heq
    exact hclient hreal

/-- An operation of one of the two control commands. -/
structure Operation.Controls (action : Token) (operationId : Option String) (roots : Roots)
    (operation : Operation) : Prop where
  real : operation.real = isRealRoot roots.sysfsRoot
  stateRoot : operation.stateRoot? = some roots.stateRoot
  arguments : ∀ pid, operation.sudoArguments pid =
    sudoControl action operationId roots.sysfsRoot roots.stateRoot
  notRun : ∀ request, operation ≠ .run request

/-- What follows a control command is the operation it means. -/
theorem answers_controlNext (command : Command) {action : Token}
    {make : Option String → PathBuf → PathBuf → Operation} {value : Control}
    (h : Answers (controlNext action make value) t (.ok next))
    (hcommand : command.coordinator = value.coordinator)
    (hcontrols : ∀ roots : Roots, (make value.operationId roots.sysfsRoot roots.stateRoot).Controls
      action value.operationId roots) :
    ∃ roots, RootsResolved t value.sysfsRoot value.stateRoot roots ∧ Next.Follows t command
      (make value.operationId roots.sysfsRoot roots.stateRoot) next := by
  obtain ⟨first, last, roots, hroots, h₁, rfl⟩ := answers_bind.mp h
  have hresolved : RootsResolved (first ++ last) value.sysfsRoot value.stateRoot roots :=
    (answers_resolveRoots hroots).mono (List.subset_append_left _ _)
  obtain ⟨hreal, hstate, harguments, hnot⟩ := hcontrols roots
  refine ⟨roots, hresolved, ?_⟩
  rcases answers_passGates h₁ with
    ⟨hroot, hclient, executable, words, inner, hexe, hwords, -, rfl⟩ |
      ⟨hguarded, chosen, inner, hchosen, rfl⟩
  · -- a control command passes no PID on, so any number stands for it
    obtain ⟨-, rfl⟩ := answers_pure.mp hwords
    have hfixed := congrArg some (hresolved.fixed hroot)
    refine Or.inl ⟨hreal.trans hroot, hcommand.trans hclient, hstate.trans hfixed, executable, 0,
      List.mem_append_right _ hexe, ?_, ?_⟩
    · rintro ⟨request, heq⟩
      exact absurd heq (hnot request)
    · rw [harguments]
  · obtain ⟨-, rfl⟩ := answers_pure.mp hchosen
    refine Or.inr ⟨fun hroot => ?_, rfl⟩
    rw [hreal] at hroot
    obtain ⟨hcoordinator, heuid⟩ := hguarded hroot
    exact ⟨hcommand.trans hcoordinator, List.mem_append_right _ heuid,
      hstate.trans (congrArg some (hresolved.fixed hroot)),
      fun request heq => absurd heq (hnot request)⟩

/-- Every command is followed by the operation it means. -/
theorem answers_next (h : Answers command.next t (.ok next)) :
    ∃ operation, command.Means t operation ∧ Next.Follows t command operation next := by
  cases command with
  | run value => exact answers_runNext h
  | status value =>
    obtain ⟨roots, hroots, hnext⟩ := answers_controlNext (.status value) h rfl
      fun _ => ⟨rfl, rfl, fun _ => rfl, fun _ heq => by cases heq⟩
    exact ⟨_, ⟨roots, hroots, rfl⟩, hnext⟩
  | recover value =>
    obtain ⟨roots, hroots, hnext⟩ := answers_controlNext (.recover value) h rfl
      fun _ => ⟨rfl, rfl, fun _ => rfl, fun _ heq => by cases heq⟩
    exact ⟨_, ⟨roots, hroots, rfl⟩, hnext⟩
  | workload value =>
    obtain ⟨rfl, rfl⟩ := answers_pure.mp h
    exact ⟨.supervise value, rfl, Or.inr ⟨fun hreal => absurd hreal Bool.false_ne_true, rfl⟩⟩

end Commands

section Runs

variable {command : Command} {p : Prog FrontOp FrontAns (Except BenchError Unit)}
  {t : List FrontEvent}

/-- Any call but a last one. -/
def FrontOp.Inner : FrontOp → Prop
  | .underSudo _ _ | .operate _ => False
  | _ => True

theorem inner_fromExcept {α : Type} (result : Except BenchError α) :
    Within FrontOp.Inner (fromExcept result : Front α) := trivial

theorem inner_absolute (path : PathBuf) : Within FrontOp.Inner (absolute path) :=
  (within_pure _).ite (Within.bind (within_ask trivial) fun _ =>
    (inner_fromExcept _).bind fun _ => within_pure _)

theorem inner_resolveRoots (sysfsRoot stateRoot : PathBuf) :
    Within FrontOp.Inner (resolveRoots sysfsRoot stateRoot) := by
  have hexisting : Within FrontOp.Inner
      (absoluteExisting sysfsRoot "canonicalizing sysfs root") :=
    (inner_absolute _).bind fun _ => Within.bind (within_ask trivial) fun _ => inner_fromExcept _
  have hstate : Within FrontOp.Inner (absoluteWithoutExisting stateRoot) :=
    (inner_absolute _).bind fun _ => (within_throw _).ite (within_pure _)
  exact hexisting.bind fun _ => hstate.bind fun _ => (inner_fromExcept _).bind fun _ =>
    within_pure _

/-- The gates make inner calls only, if what they are given does. -/
theorem inner_passGates (coordinator : Bool) (sysfsRoot : PathBuf) {arguments : Front (List Token)}
    {operation : Front Operation} (harguments : Within FrontOp.Inner arguments)
    (hoperation : Within FrontOp.Inner operation) :
    Within FrontOp.Inner (passGates coordinator sysfsRoot arguments operation) := by
  have hprivilege : Within FrontOp.Inner (requireCoordinatorPrivilege sysfsRoot coordinator) := by
    apply Within.ite _ (within_pure _)
    apply Within.ite _ (within_throw _)
    exact Within.bind (within_ask trivial) fun _ => (within_throw _).ite (within_pure _)
  apply Within.ite
  · exact Within.bind (within_ask trivial) fun _ => (inner_fromExcept _).bind fun _ =>
      harguments.bind fun _ => within_pure _
  · exact hprivilege.bind fun _ => hoperation.bind fun _ => within_pure _

/-- So does every command. -/
theorem inner_next (command : Command) : Within FrontOp.Inner command.next := by
  have hcontrol (action : Token) (make : Option String → PathBuf → PathBuf → Operation)
      (value : Control) : Within FrontOp.Inner (controlNext action make value) :=
    (inner_resolveRoots _ _).bind fun _ => inner_passGates _ _ (within_pure _) (within_pure _)
  cases command with
  | run value =>
    refine (inner_absolute _).bind fun _ => (inner_resolveRoots _ _).bind fun _ => ?_
    apply inner_passGates
    · exact Within.bind (within_ask trivial) fun _ => within_pure _
    · exact (within_throw _).ite (within_pure _)
  | status value => exact hcontrol _ _ value
  | recover value => exact hcontrol _ _ value
  | workload value => exact within_pure _

/-- A run that has come to its last call has decided for it on the events before. -/
theorem perform_cases (h : Reach (traceMachine FrontOp FrontAns) (command.perform.run, []) (p, t)) :
    ((∀ e ∈ t, e.1.Inner) ∧ p ≠ .ret (.ok ())) ∨
      ∃ before, ∃ next : Next, ∃ x, (∀ e ∈ before, e.1.Inner) ∧
      (∃ operation, command.Means before operation ∧ Next.Follows before command operation next) ∧
      p = .ret (next.result x) ∧ t = before ++ [⟨next.op, x⟩] := by
  rcases reach_last_call (inner_next command) Next.op Next.result h with
    ⟨hinner, hnot⟩ | ⟨before, next, x, hinner, hanswers, hc⟩
  · exact Or.inl ⟨hinner, hnot ()⟩
  · obtain ⟨rfl, rfl⟩ := Prod.mk.inj hc
    exact Or.inr ⟨before, next, x, hinner, answers_next hanswers, rfl, rfl⟩

/-- An operation is the last call and decides the result; and on the real sysfs it is reached only
by a coordinator that is root, with the fixed state directory, and for a client to be watched. -/
theorem real_operation_guarded
    (h : Reach (traceMachine FrontOp FrontAns) (command.perform.run, []) (p, t))
    {operation : Operation} {x : Except BenchError Unit}
    (hoperation : (⟨.operate operation, x⟩ : FrontEvent) ∈ t) :
    p = .ret x ∧ ∃ before, t = before ++ [⟨.operate operation, x⟩] ∧
      (∀ e ∈ before, e.1.Inner) ∧ command.Means before operation ∧
      (operation.real = true → operation.Guarded before command.coordinator) := by
  rcases perform_cases h with
    ⟨hinner, -⟩ | ⟨before, next, y, hinner, ⟨meant, hmeans, hfollows⟩, rfl, rfl⟩
  · exact (hinner _ hoperation).elim
  · have hlast := eq_last_call hinner hoperation not_false
    rcases hfollows with ⟨-, -, -, executable, pid, -, -, rfl⟩ | ⟨hguarded, rfl⟩
    · cases hlast
    · cases hlast
      exact ⟨rfl, before, rfl, hinner, hmeans, hguarded⟩

end Runs

/-- What the command line has made of the arguments of a run. -/
structure Run.Given (value : Run) : Prop where
  receipt : ∀ name ∈ value.receipt.components,
    name ≠ "" ∧ '/' ∉ name.toList ∧ (value.receipt.absolute = true → name ≠ ".")
  cpus : value.cpus ≠ []
  cpu : ∀ cpu ∈ value.cpus, cpu ≤ u64Max
  timeout : value.timeout ≤ u64Max
  workload : value.workload ≠ []

def Command.Given : Command → Prop
  | .run value => value.Given
  | _ => True

section Coordinator

variable {t t' : List FrontEvent} {command : Command} {operation : Operation}

theorem written_real : realSysfsRoot.Written ∧ realStateRoot.Written := by
  refine ⟨⟨rfl, ?_⟩, ⟨rfl, ?_⟩⟩ <;> decide

/-- The absolute form of a written path can be written. -/
theorem AbsoluteOf.written {path path' : PathBuf} (h : AbsoluteOf t path path')
    (hgiven : ∀ name ∈ path.components,
      name ≠ "" ∧ '/' ∉ name.toList ∧ (path.absolute = true → name ≠ "."))
    (hdirectory : ∀ directory, (⟨.currentDir, .ok directory⟩ : FrontEvent) ∈ t →
      directory.Written) : path'.Written := by
  rcases h with ⟨habsolute, rfl⟩ | ⟨-, directory, hmem, rfl⟩
  · refine ⟨habsolute, fun name hname => ?_⟩
    obtain ⟨hempty, hslash, hdot⟩ := hgiven name hname
    exact ⟨hempty, hdot habsolute, hslash⟩
  · refine ⟨(hdirectory directory hmem).absolute, fun name hname => ?_⟩
    rcases List.mem_append.mp hname with hname | hname
    · exact (hdirectory directory hmem).component name hname
    · -- a leading dot is gone with the join
      obtain ⟨hname, hdot⟩ := List.mem_filter.mp hname
      obtain ⟨hempty, hslash, -⟩ := hgiven name hname
      exact ⟨hempty, of_decide_eq_true hdot, hslash⟩

/-- The roots of the client are resolved to themselves. -/
theorem RootsResolved.real {roots : Roots}
    (h : RootsResolved t realSysfsRoot realStateRoot roots)
    (hcanonical : ∀ path, (⟨.canonicalize realSysfsRoot, .ok path⟩ : FrontEvent) ∈ t →
      path = realSysfsRoot) : roots = ⟨realSysfsRoot, realStateRoot⟩ := by
  obtain ⟨sysfsRoot, stateRoot⟩ := roots
  obtain ⟨path, hpath, hmem⟩ := h.sysfs
  have hself : path = realSysfsRoot := hpath.eq_self rfl
  rw [hself] at hmem
  have hsysfs : sysfsRoot = realSysfsRoot := hcanonical sysfsRoot hmem
  have hstate : stateRoot = realStateRoot := h.state.eq_self rfl
  rw [hsysfs, hstate]

theorem real_eq {path : PathBuf} (h : isRealRoot path = true) : path = realSysfsRoot :=
  of_decide_eq_true h

/-- The arguments for `sudo` are read as a command that means what the client meant. -/
theorem sudoArguments_read (clap : Parser) (hgiven : command.Given)
    (hid : ∀ id ∈ command.operationId, ¬ Hyphenated id)
    (hdirectory : ∀ directory, (⟨.currentDir, .ok directory⟩ : FrontEvent) ∈ t →
      directory.Written) (hmeans : command.Means t operation) (hreal : operation.real = true)
    (hstate : operation.stateRoot? = some realStateRoot) {pid : ℕ}
    (hpid : (∃ request, operation = .run request) → pid ≤ u32Max) :
    ∃ started, Cli.tryParse clap (operation.sudoArguments pid) = some started ∧
      started.coordinator = true ∧ ∀ t' reached, started.Means t' reached →
        (∀ path, (⟨.canonicalize realSysfsRoot, .ok path⟩ : FrontEvent) ∈ t' →
          path = realSysfsRoot) → reached = operation.coordinated pid := by
  obtain ⟨hwrittenSysfs, hwrittenState⟩ := written_real
  cases command with
  | run value =>
    obtain ⟨resolved, hresolved, rfl⟩ := hmeans
    have hsysfsRoot : resolved.sysfsRoot = realSysfsRoot := real_eq hreal
    have hstateRoot : resolved.stateRoot = realStateRoot := Option.some.inj hstate
    have hsame := hresolved.same
    -- the limit was given in seconds, so that none of it is lost on the way
    have htimeout : resolved.timeout = value.timeout * 1000000000 := by rw [hsame]; rfl
    have hrequested : resolved.Requested := {
      receiptPath := hresolved.receiptPath.written hgiven.receipt hdirectory
      sysfsRoot := by rw [hsysfsRoot]; exact hwrittenSysfs
      stateRoot := by rw [hstateRoot]; exact hwrittenState
      cpus := by rw [hsame]; exact hgiven.cpus
      cpu := by rw [hsame]; exact hgiven.cpu
      timeout := by
        have hbound := hgiven.timeout
        rw [htimeout]
        omega
      workload := by rw [hsame]; exact hgiven.workload }
    have hids : ∀ id ∈ resolved.operationId, ¬ Hyphenated id := by rw [hsame]; exact hid
    have hround : RunRoundTrips clap pid resolved :=
      hrequested.runRoundTrips (hpid ⟨resolved, rfl⟩) hids
    obtain ⟨run, hparse, hcoordinator, hrequest⟩ := hround
    refine ⟨.run run, hparse, hcoordinator, fun t' reached hreached hcanonical => ?_⟩
    -- what is read back is resolved again, each path to itself
    obtain ⟨again, hagain, rfl⟩ := hreached
    have hroots := hagain.roots
    have hreceipt := hagain.receiptPath
    have hagainSame := hagain.same
    rw [hrequest] at hroots hreceipt hagainSame
    dsimp only at hroots hreceipt
    rw [hsysfsRoot, hstateRoot] at hroots
    have hpaths := hroots.real hcanonical
    rw [hreceipt.eq_self hrequested.receiptPath.absolute, hpaths] at hagainSame
    rw [hagainSame, Operation.coordinated, RunRequest.withPaths, ← hsysfsRoot, ← hstateRoot]
  | status value =>
    obtain ⟨roots, -, rfl⟩ := hmeans
    have hsysfsRoot : roots.sysfsRoot = realSysfsRoot := real_eq hreal
    have hstateRoot : roots.stateRoot = realStateRoot := Option.some.inj hstate
    rw [hsysfsRoot, hstateRoot]
    refine ⟨_, (sudoControl_read clap hwrittenSysfs hwrittenState hid).1, rfl, ?_⟩
    rintro t' reached ⟨again, hagain, rfl⟩ hcanonical
    rw [hagain.real hcanonical]
    rfl
  | recover value =>
    obtain ⟨roots, -, rfl⟩ := hmeans
    have hsysfsRoot : roots.sysfsRoot = realSysfsRoot := real_eq hreal
    have hstateRoot : roots.stateRoot = realStateRoot := Option.some.inj hstate
    rw [hsysfsRoot, hstateRoot]
    refine ⟨_, (sudoControl_read clap hwrittenSysfs hwrittenState hid).2, rfl, ?_⟩
    rintro t' reached ⟨again, hagain, rfl⟩ hcanonical
    rw [hagain.real hcanonical]
    rfl
  | workload value =>
    obtain rfl := hmeans
    cases hreal

/-- A coordinator does not turn to `sudo`, and its operation is the last call of a run. -/
theorem coordinator_runs {p : Prog FrontOp FrontAns (Except BenchError Unit)}
    (hcoordinator : command.coordinator = true)
    (h : Reach (traceMachine FrontOp FrontAns) (command.perform.run, []) (p, t)) :
    (∀ executable arguments x, (⟨.underSudo executable arguments, x⟩ : FrontEvent) ∉ t) ∧
    ∀ operation x, (⟨.operate operation, x⟩ : FrontEvent) ∈ t → p = .ret x ∧
      ∃ before, before ⊆ t ∧ command.Means before operation ∧
        (operation.real = true → operation.Guarded before true) := by
  rcases perform_cases h with
    ⟨hinner, -⟩ | ⟨before, next, x, hinner, ⟨meant, hmeans, hfollows⟩, rfl, rfl⟩
  · exact ⟨fun _ _ _ hmem => hinner _ hmem, fun _ _ hmem => (hinner _ hmem).elim⟩
  rw [Next.Follows, hcoordinator] at hfollows
  rcases hfollows with ⟨-, hclient, -⟩ | ⟨hguarded, rfl⟩
  · cases hclient
  constructor
  · intro executable arguments y hmem
    cases eq_last_call hinner hmem not_false
  · intro operation y hmem
    cases eq_last_call hinner hmem not_false
    exact ⟨rfl, before, List.subset_append_left _ _, hmeans, hguarded⟩

/-- A client of the real sysfs does nothing itself: its last call is `sudo` on its own executable,
which decides its result. What is started there never turns to `sudo` again, and if it operates,
then as root and just as the client meant. -/
theorem sudo_reaches_operation (clap : Parser) (hgiven : command.Given)
    (hid : ∀ id ∈ command.operationId, ¬ Hyphenated id)
    {p : Prog FrontOp FrontAns (Except BenchError Unit)}
    (h : Reach (traceMachine FrontOp FrontAns) (command.perform.run, []) (p, t))
    (hdirectory : ∀ directory, (⟨.currentDir, .ok directory⟩ : FrontEvent) ∈ t →
      directory.Written)
    (hpid : ∀ pid, (⟨.processId, pid⟩ : FrontEvent) ∈ t → pid ≤ u32Max)
    {executable : PathBuf} {arguments : List Token} {x : Except IoError ForwardedStatus}
    (hsudo : (⟨.underSudo executable arguments, x⟩ : FrontEvent) ∈ t) :
    p = .ret (forwardStatus x) ∧ (⟨.currentExe, .ok executable⟩ : FrontEvent) ∈ t ∧
    (∀ operation y, (⟨.operate operation, y⟩ : FrontEvent) ∉ t) ∧
    ∃ before operation pid started, t = before ++ [⟨.underSudo executable arguments, x⟩] ∧
      command.Means before operation ∧
      ((∃ request, operation = .run request) → (⟨.processId, pid⟩ : FrontEvent) ∈ before) ∧
      Cli.tryParse clap arguments = some started ∧ ∀ p' t',
        Reach (traceMachine FrontOp FrontAns) (started.perform.run, []) (p', t') →
        (∀ again words y, (⟨.underSudo again words, y⟩ : FrontEvent) ∉ t') ∧
        ∀ reached y, (⟨.operate reached, y⟩ : FrontEvent) ∈ t' →
          (∀ path, (⟨.canonicalize realSysfsRoot, .ok path⟩ : FrontEvent) ∈ t' →
            path = realSysfsRoot) →
          reached = operation.coordinated pid ∧ (⟨.geteuid, 0⟩ : FrontEvent) ∈ t' ∧
            p' = .ret y := by
  rcases perform_cases h with
    ⟨hinner, -⟩ | ⟨before, next, y, hinner, ⟨operation, hmeans, hfollows⟩, rfl, rfl⟩
  · exact (hinner _ hsudo).elim
  have hbefore : before ⊆ before ++ [⟨next.op, y⟩] := List.subset_append_left _ _
  have hlast := eq_last_call hinner hsudo not_false
  rcases hfollows with ⟨hreal, -, hstate, exe, pid, hexe, hprocess, rfl⟩ | ⟨-, rfl⟩
  · cases hlast
    obtain ⟨started, hparse, hcoordinator, hreads⟩ := sudoArguments_read clap hgiven hid
      (fun directory hmem => hdirectory directory (hbefore hmem)) hmeans hreal hstate
      (fun hrun => hpid pid (hbefore (hprocess hrun)))
    refine ⟨rfl, hbefore hexe, ?_, before, operation, pid, started, rfl, hmeans, hprocess, hparse,
      ?_⟩
    · intro other z hmem
      cases eq_last_call hinner hmem not_false
    · intro p' t' h'
      obtain ⟨hnever, hoperates⟩ := coordinator_runs hcoordinator h'
      refine ⟨hnever, fun reached z hmem hcanonical => ?_⟩
      obtain ⟨hresult, before', hsub, hmeans', hguarded⟩ := hoperates reached z hmem
      have hreached : reached = operation.coordinated pid :=
        hreads before' reached hmeans' fun path hmem => hcanonical path (hsub hmem)
      -- the PID of the client changes nothing on what is worked
      have hstill : reached.real = true := by
        rw [hreached]
        cases operation <;> exact hreal
      exact ⟨hreached, hsub (hguarded hstill).euid, hresult⟩
  · cases hlast

end Coordinator

/-- A host on which every call succeeds. -/
def sampleFront : (op : FrontOp) → Option (FrontAns op)
  | .currentDir => some (.ok ⟨true, ["work"]⟩)
  | .canonicalize path => some (.ok path)
  | .currentExe => some (.ok ⟨true, ["usr", "bin", "benchctl"]⟩)
  | .processId => some 7
  | .geteuid => some 0
  | .underSudo _ _ => some (.ok ⟨true, "exit status: 0"⟩)
  | .operate _ => some (.ok ())

def sampleClient : Run where
  receipt := ⟨false, ["receipt.json"]⟩
  operationId := some "op-1"
  cpuidle := .pollC1
  cpus := [2, 3]
  timeout := 900
  sysfsRoot := realSysfsRoot
  stateRoot := realStateRoot
  coordinator := false
  clientPid := none
  workload := ["--latency", ""]

def sampleCoordinator : Run :=
  { sampleClient with
    receipt := ⟨true, ["work", "receipt.json"]⟩
    coordinator := true
    clientPid := some 7 }

theorem sampleFront_client : Yields sampleFront (Command.run sampleClient).perform () := by
  rfl

theorem sampleFront_coordinator :
    Yields sampleFront (Command.run sampleCoordinator).perform () := by
  rfl

theorem sampleClient_given : (Command.run sampleClient).Given := by
  refine Run.Given.mk ?_ ?_ ?_ ?_ ?_ <;> decide

/-- On that host the roots are resolved to themselves. -/
theorem sampleFront_real {t : List FrontEvent} {value : Run} {operation : Operation}
    (hlook : ∀ e ∈ t, sampleFront e.1 = some e.2) (hsysfs : value.sysfsRoot = realSysfsRoot)
    (hstate : value.stateRoot = realStateRoot) (h : (Command.run value).Means t operation) :
    operation.real = true := by
  obtain ⟨resolved, hresolved, rfl⟩ := h
  have hcanonical (path : PathBuf)
      (hmem : (⟨.canonicalize realSysfsRoot, .ok path⟩ : FrontEvent) ∈ t) :
      path = realSysfsRoot := (Except.ok.inj (Option.some.inj (hlook _ hmem))).symm
  have hroots := hresolved.roots
  rw [Run.request, hsysfs, hstate] at hroots
  have hreal := congrArg Roots.sysfsRoot (hroots.real hcanonical)
  exact decide_eq_true hreal

/-- The coordinator of that host operates. -/
theorem real_operation_guarded_sample : ∃ t before operation x,
    Reach (traceMachine FrontOp FrontAns) ((Command.run sampleCoordinator).perform.run, [])
      (.ret x, t) ∧
    t = before ++ [⟨.operate operation, x⟩] ∧ operation.Guarded before true := by
  obtain ⟨t, ht, hlook⟩ := Prog.answered_of_answer sampleFront_coordinator
  have hrun := ht.reach []
  rw [List.nil_append] at hrun
  rcases perform_cases hrun with
    ⟨-, hnot⟩ | ⟨before, next, x, -, ⟨operation, hmeans, hnext⟩, -, rfl⟩
  · exact absurd rfl hnot
  · have hreal : operation.real = true :=
      sampleFront_real (fun e he => hlook e (List.mem_append_left _ he)) rfl rfl hmeans
    rcases hnext with ⟨-, hclient, -⟩ | ⟨-, rfl⟩
    · cases hclient
    · obtain ⟨hresult, before, ht, -, -, hguarded⟩ :=
        real_operation_guarded hrun (List.mem_append_right _ List.mem_cons_self)
      rw [hresult] at hrun
      exact ⟨_, before, operation, _, hrun, ht, hguarded hreal⟩

/-- Its client is done with `sudo`, and what that starts is read. -/
theorem sudo_reaches_operation_sample : ∃ t executable arguments x started,
    Reach (traceMachine FrontOp FrontAns) ((Command.run sampleClient).perform.run, [])
      (.ret (forwardStatus x), t) ∧
    (⟨.underSudo executable arguments, x⟩ : FrontEvent) ∈ t ∧
    Cli.tryParse documented arguments = some started ∧
    ∀ p' t', Reach (traceMachine FrontOp FrontAns) (started.perform.run, []) (p', t') →
      ∀ again words y, (⟨.underSudo again words, y⟩ : FrontEvent) ∉ t' := by
  obtain ⟨t, ht, hlook⟩ := Prog.answered_of_answer sampleFront_client
  have hrun := ht.reach []
  rw [List.nil_append] at hrun
  have hdirectory (directory : PathBuf)
      (hmem : (⟨.currentDir, .ok directory⟩ : FrontEvent) ∈ t) : directory.Written := by
    obtain rfl := Except.ok.inj (Option.some.inj (hlook _ hmem))
    refine ⟨rfl, ?_⟩
    decide
  have hpid (pid : ℕ) (hmem : (⟨.processId, pid⟩ : FrontEvent) ∈ t) : pid ≤ u32Max := by
    obtain rfl : (7 : ℕ) = pid := Option.some.inj (hlook _ hmem)
    decide
  rcases perform_cases hrun with
    ⟨-, hnot⟩ | ⟨before, next, x, -, ⟨operation, hmeans, hnext⟩, -, rfl⟩
  · exact absurd rfl hnot
  · have hreal : operation.real = true :=
      sampleFront_real (fun e he => hlook e (List.mem_append_left _ he)) rfl rfl hmeans
    rcases hnext with ⟨-, -, -, executable, pid, -, -, rfl⟩ | ⟨hguarded, -⟩
    · have hmem : (⟨.underSudo executable (operation.sudoArguments pid), x⟩ : FrontEvent) ∈
          before ++ [⟨.underSudo executable (operation.sudoArguments pid), x⟩] :=
        List.mem_append_right _ List.mem_cons_self
      obtain ⟨hresult, -, -, _, _, _, started, -, -, -, hparse, hstarted⟩ :=
        sudo_reaches_operation documented sampleClient_given (by decide) hrun hdirectory hpid hmem
      rw [hresult] at hrun
      exact ⟨_, executable, _, x, started, hrun, hmem, hparse,
        fun p' t' h' => (hstarted p' t' h').1⟩
    · have hcoordinator := (hguarded hreal).coordinator
      cases hcoordinator

end Snoozer.Benchctl
