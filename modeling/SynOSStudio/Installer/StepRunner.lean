import SynOSStudio.CompensatedRuns.Runs
import SynOSStudio.Installer.Plan

/-!
# The step runner

`StepRunner.run`. The steps themselves are arbitrary: each of their four methods may change the
plan and the values of the context and the machine, and returns or raises. The three callbacks
write to the context what they are told, and do not raise.
-/

namespace Installer

variable {F W : Type}

inductive FailurePolicy where
  | fatal
  | warning
  | bestEffort
  deriving DecidableEq

inductive StepStatus where
  | pending
  | running
  | succeeded
  | warning
  | failed
  | skipped
  deriving DecidableEq

/-- `StepSkipped`, `StepWarning` and every other exception, with its text. -/
inductive StepException where
  | stepSkipped (message : String)
  | stepWarning (message : String)
  | other (message : String)
  deriving DecidableEq

def StepException.message : StepException → String
  | .stepSkipped message => message
  | .stepWarning message => message
  | .other message => message

inductive ExecutionPolicy where
  | release
  | guidedDestructiveTest
  deriving DecidableEq

/-- What the steps act on: the plan, the values of the context and the machine. -/
structure StepState (F W : Type) where
  plan : InstallPlan F
  values : W

abbrev StepMethod (F W : Type) := StepState F W → Except StepException Unit × StepState F W

structure InstallStep (F W : Type) where
  id : String
  title : String
  failurePolicy : FailurePolicy
  progressWeight : ℤ
  destructive : Bool
  preflight : StepMethod F W
  execute : StepMethod F W
  verify : StepMethod F W
  cleanup : StepMethod F W

inductive StepPhase where
  | preflight
  | execute
  | verify
  | cleanup
  deriving DecidableEq

def InstallStep.method (step : InstallStep F W) : StepPhase → StepMethod F W
  | .preflight => step.preflight
  | .execute => step.execute
  | .verify => step.verify
  | .cleanup => step.cleanup

/-- One call of a method, with the state in which it was made. -/
structure StepCall (F W : Type) where
  phase : StepPhase
  step : InstallStep F W
  before : StepState F W

def StepCall.outcome (call : StepCall F W) : Except StepException Unit :=
  (call.step.method call.phase call.before).1

structure StepResult where
  stepId : String
  status : StepStatus
  message : String
  deriving DecidableEq

structure InstallResult where
  succeeded : Bool
  results : List StepResult
  destructiveStarted : Bool
  deriving DecidableEq

def InstallResult.warnings (result : InstallResult) : List StepResult :=
  result.results.filter fun r => r.status = .warning

/-- The context, what the callbacks were told, and the calls made so far, oldest first; no code
reads the last four fields. -/
structure InstallContext (F W : Type) where
  state : StepState F W
  executionPolicy : ExecutionPolicy
  destructiveStarted : Bool
  calls : List (StepCall F W)
  logged : List String
  progressed : List (String × ℤ × ℤ)
  statuses : List (String × StepStatus × String)

def InstallContext.fresh (executionPolicy : ExecutionPolicy) (state : StepState F W) :
    InstallContext F W where
  state := state
  executionPolicy := executionPolicy
  destructiveStarted := false
  calls := []
  logged := []
  progressed := []
  statuses := []

namespace InstallContext

variable (context : InstallContext F W)

def log (message : String) : InstallContext F W :=
  { context with logged := context.logged ++ [message] }

def progress (stepId : String) (completed total : ℤ) : InstallContext F W :=
  { context with progressed := context.progressed ++ [(stepId, completed, total)] }

def status (stepId : String) (status : StepStatus) (message : String) : InstallContext F W :=
  { context with statuses := context.statuses ++ [(stepId, status, message)] }

/-- Call a method of a step. -/
def call (phase : StepPhase) (step : InstallStep F W) :
    Except StepException Unit × InstallContext F W :=
  let ended := step.method phase context.state
  (ended.1, { context with
    state := ended.2
    calls := context.calls ++ [⟨phase, step, context.state⟩] })

end InstallContext

/-! ## Boundary markers -/

section Boundaries

/-- `BOUNDARY_ID_RE` -/
def isBoundaryId (boundaryId : String) : Bool :=
  match boundaryId.toList.splitOn '-' with
  | [] => false
  | kind :: parts =>
    decide (kind = "guided".toList ∨ kind = "manual".toList) && !parts.isEmpty &&
      parts.all fun part => !part.isEmpty && part.all fun c =>
        decide ('a' ≤ c ∧ c ≤ 'z') || decide ('0' ≤ c ∧ c ≤ '9')

def boundaryMarker (boundaryId phase : String) : Except StepException String :=
  if !isBoundaryId boundaryId then .error (.other "Invalid destructive boundary identifier")
  else if phase ∉ ["before", "after"] then .error (.other "Invalid destructive boundary phase")
  else .ok ("[synos-boundary:" ++ boundaryId ++ ":" ++ phase ++ "]")

def emitBoundary (boundaryId phase : String) (context : InstallContext F W) :
    Except StepException Unit × InstallContext F W :=
  match boundaryMarker boundaryId phase with
  | .error e => (.error e, context)
  | .ok marker => (.ok (), context.log marker)

/-- `_guided_step_boundary` -/
def guidedStepBoundary (context : InstallContext F W) (step : InstallStep F W) : String :=
  if context.executionPolicy = .guidedDestructiveTest ∧
      context.state.plan.storage.mode = .guidedCoexistence then "guided-step-" ++ step.id
  else ""

end Boundaries

/-! ## The runner -/

namespace StepRunner

/-- One statement after another; an exception ends them. -/
def andThen (first second : InstallContext F W → Except StepException Unit × InstallContext F W)
    (context : InstallContext F W) : Except StepException Unit × InstallContext F W :=
  match first context with
  | (.ok (), context) => second context
  | (.error e, context) => (.error e, context)

def emitIf (boundary phase : String) (context : InstallContext F W) :
    Except StepException Unit × InstallContext F W :=
  if boundary = "" then (.ok (), context) else emitBoundary boundary phase context

/-- The block under `try`. -/
def attempt (boundary : String) (step : InstallStep F W) :
    InstallContext F W → Except StepException Unit × InstallContext F W :=
  andThen (emitIf boundary "before") <|
    andThen (fun context => context.call .execute step) <|
      andThen (emitIf boundary "after") fun context => context.call .verify step

/-- One turn of the loop of `_cleanup`. -/
def cleanupStep (context : InstallContext F W) (step : InstallStep F W) : InstallContext F W :=
  match context.call .cleanup step with
  | (.ok (), context) => context
  | (.error e, context) => context.log ("[" ++ step.id ++ "] cleanup failed: " ++ e.message)

/-- `_cleanup` -/
def cleanupSteps (context : InstallContext F W) (executed : List (InstallStep F W)) :
    InstallContext F W :=
  executed.reverse.foldl cleanupStep context

def preflightSteps : List (InstallStep F W) → InstallContext F W →
    Option StepResult × InstallContext F W
  | [], context => (none, context)
  | step :: steps, context =>
    match (context.log ("[preflight:" ++ step.id ++ "] " ++ step.title)).call .preflight step with
    | (.ok (), context) => preflightSteps steps context
    | (.error e, context) =>
      let message := "Preflight failed for " ++ step.id ++ ": " ++ e.message
      (some ⟨step.id, .failed, message⟩,
        (context.log message).status step.id .failed message)

def weight (step : InstallStep F W) : ℤ := max 1 step.progressWeight

def totalWeight (steps : List (InstallStep F W)) : ℤ := (steps.map weight).sum

/-- The statements before `try`. -/
def beginStep (total completed : ℤ) (step : InstallStep F W) (context : InstallContext F W) :
    InstallContext F W :=
  let context := context.progress step.id completed total
  let context := context.status step.id .running ""
  let context := context.log ("[" ++ step.id ++ "] " ++ step.title)
  if step.destructive then { context with destructiveStarted := true } else context

def runSteps (total : ℤ) : List (InstallStep F W) → ℤ → List StepResult →
    List (InstallStep F W) → InstallContext F W → InstallResult × InstallContext F W
  | [], _, results, _, context =>
    let context := context.progress "complete" total total
    (⟨true, results, context.destructiveStarted⟩, context)
  | step :: steps, completed, results, executed, context =>
    let context := beginStep total completed step context
    match attempt (guidedStepBoundary context step) step context with
    | (.ok (), context) =>
      let context := context.status step.id .succeeded ""
      runSteps total steps (completed + weight step)
        (results ++ [⟨step.id, .succeeded, ""⟩]) (executed ++ [step]) context
    | (.error (.stepSkipped message), context) =>
      let context := context.log ("[" ++ step.id ++ "] skipped: " ++ message)
      let context := context.status step.id .skipped message
      runSteps total steps (completed + weight step)
        (results ++ [⟨step.id, .skipped, message⟩]) executed context
    | (.error (.stepWarning message), context) =>
      let context := context.log ("[" ++ step.id ++ "] warning: " ++ message)
      let context := cleanupSteps context [step]
      let context := context.status step.id .warning message
      runSteps total steps (completed + weight step)
        (results ++ [⟨step.id, .warning, message⟩]) executed context
    | (.error (.other message), context) =>
      let context := context.log ("[" ++ step.id ++ "] failed: " ++ message)
      let context := cleanupSteps context [step]
      match step.failurePolicy with
      | .fatal =>
        let context := context.status step.id .failed message
        let context := cleanupSteps context executed
        (⟨false, results ++ [⟨step.id, .failed, message⟩], context.destructiveStarted⟩, context)
      | .warning =>
        let context := context.status step.id .warning message
        runSteps total steps (completed + weight step)
          (results ++ [⟨step.id, .warning, message⟩]) executed context
      | .bestEffort =>
        let context := context.status step.id .skipped message
        runSteps total steps (completed + weight step)
          (results ++ [⟨step.id, .skipped, message⟩]) executed context

/-- The method `run`. -/
def run (steps : List (InstallStep F W)) (context : InstallContext F W) :
    InstallResult × InstallContext F W :=
  match preflightSteps steps context with
  | (some failed, context) => (⟨false, [failed], false⟩, context)
  | (none, context) => runSteps (totalWeight steps) steps 0 [] [] context

end StepRunner

end Installer
