import SynOSStudio.Installer.StepRunner

/-!
# What a run of the step runner did

From the calls that a run made its report can be read off: which steps were begun, how the
attempt at each one ended, what was undone and in which order, and what was reported.
-/

namespace Installer

namespace StepRunner

variable {F W : Type}

/-- A call without the state it was made in. -/
def key (call : StepCall F W) : StepPhase × InstallStep F W := (call.phase, call.step)

/-! ## The course of one step -/

section Courses

/-- The calls under `try`, and how the block ended. Only a step whose id makes no marker can fail
there without a call. -/
inductive Ran (step : InstallStep F W) : List (StepCall F W) → Except StepException Unit → Prop
  | unmarked (h : isBoundaryId ("guided-step-" ++ step.id) = false) :
      Ran step [] (.error (.other "Invalid destructive boundary identifier"))
  | raised (before : StepState F W) (e : StepException)
      (h : (StepCall.mk .execute step before).outcome = .error e) :
      Ran step [⟨.execute, step, before⟩] (.error e)
  | verified (before between : StepState F W)
      (h : (StepCall.mk .execute step before).outcome = .ok ()) :
      Ran step [⟨.execute, step, before⟩, ⟨.verify, step, between⟩]
        (StepCall.mk .verify step between).outcome

/-- The checks, up to the first one that raised. -/
inductive Preflighted :
    List (InstallStep F W) → List (StepCall F W) → Option StepResult → Prop
  | nil : Preflighted [] [] none
  | passed {step : InstallStep F W} {steps : List (InstallStep F W)} {calls : List (StepCall F W)}
      {result : Option StepResult} (before : StepState F W)
      (h : (StepCall.mk .preflight step before).outcome = .ok ())
      (rest : Preflighted steps calls result) :
      Preflighted (step :: steps) (⟨.preflight, step, before⟩ :: calls) result
  | failed (step : InstallStep F W) (steps : List (InstallStep F W)) (before : StepState F W)
      (e : StepException) (h : (StepCall.mk .preflight step before).outcome = .error e) :
      Preflighted (step :: steps) [⟨.preflight, step, before⟩] (some ⟨step.id, .failed,
        "Preflight failed for " ++ step.id ++ ": " ++ e.message⟩)

structure Course (F W : Type) where
  step : InstallStep F W
  body : List (StepCall F W)
  outcome : Except StepException Unit
  undone : List (StepCall F W)

def policyStatus : FailurePolicy → StepStatus
  | .fatal => .failed
  | .warning => .warning
  | .bestEffort => .skipped

namespace Course

variable (course : Course F W)

def calls : List (StepCall F W) := course.body ++ course.undone

def result : StepResult :=
  match course.outcome with
  | .ok () => ⟨course.step.id, .succeeded, ""⟩
  | .error (.stepSkipped message) => ⟨course.step.id, .skipped, message⟩
  | .error (.stepWarning message) => ⟨course.step.id, .warning, message⟩
  | .error (.other message) =>
    ⟨course.step.id, policyStatus course.step.failurePolicy, message⟩

def succeeded : Bool :=
  match course.outcome with
  | .ok () => true
  | .error _ => false

/-- A fatal step raised an ordinary exception. -/
def Fatal : Prop :=
  course.step.failurePolicy = .fatal ∧ ∃ message, course.outcome = .error (.other message)

/-- The step itself, where the runner cleans up right after it. -/
def cleaned : List (InstallStep F W) :=
  match course.outcome with
  | .ok () => []
  | .error (.stepSkipped _) => []
  | .error _ => [course.step]

structure Followed : Prop where
  ran : Ran course.step course.body course.outcome
  undone : course.undone.map key = course.cleaned.map fun step => (.cleanup, step)

end Course

def succeededSteps (courses : List (Course F W)) : List (InstallStep F W) :=
  (courses.filter Course.succeeded).map Course.step

/-- What is reported when the steps begin, the first one after `completed` units. -/
def beginnings (total : ℤ) : ℤ → List (Course F W) → List (String × ℤ × ℤ)
  | _, [] => []
  | completed, course :: courses =>
    (course.step.id, completed, total) :: beginnings total (completed + weight course.step) courses

end Courses

/-! ## What the parts of a run do to the context -/

section Parts

variable {context : InstallContext F W} {step : InstallStep F W} {boundary phase : String}

/-- The context after some calls; the steps changed nothing else the runner reads. -/
structure Called (context after : InstallContext F W) (calls : List (StepCall F W)) : Prop where
  calls : after.calls = context.calls ++ calls
  progressed : after.progressed = context.progressed
  destructiveStarted : after.destructiveStarted = context.destructiveStarted

theorem Called.trans {after last : InstallContext F W} {calls more : List (StepCall F W)}
    (h : Called context after calls) (h' : Called after last more) :
    Called context last (calls ++ more) where
  calls := by rw [h'.calls, h.calls, List.append_assoc]
  progressed := h'.progressed.trans h.progressed
  destructiveStarted := h'.destructiveStarted.trans h.destructiveStarted

theorem called_self : Called context context [] := ⟨by simp, rfl, rfl⟩

theorem called_log (message : String) : Called context (context.log message) [] :=
  ⟨by simp [InstallContext.log], rfl, rfl⟩

theorem called_status (stepId : String) (status : StepStatus) (message : String) :
    Called context (context.status stepId status message) [] :=
  ⟨by simp [InstallContext.status], rfl, rfl⟩

theorem called_call (context : InstallContext F W) (step : InstallStep F W) (phase : StepPhase) :
    Called context (context.call phase step).2 [⟨phase, step, context.state⟩] :=
  ⟨rfl, rfl, rfl⟩

theorem call_outcome (context : InstallContext F W) (step : InstallStep F W) (phase : StepPhase) :
    (context.call phase step).1 = (StepCall.mk phase step context.state).outcome := rfl

theorem called_emitIf : Called context (emitIf boundary phase context).2 [] := by
  unfold emitIf emitBoundary
  split
  · exact called_self
  · split
    · exact called_self
    · exact called_log _

theorem emitIf_ok (h : boundary = "" ∨ isBoundaryId boundary = true)
    (hphase : phase = "before" ∨ phase = "after") : (emitIf boundary phase context).1 = .ok () := by
  by_cases hempty : boundary = ""
  · simp [emitIf, hempty]
  · have hid := h.resolve_left hempty
    rcases hphase with rfl | rfl <;> simp [emitIf, emitBoundary, boundaryMarker, hempty, hid]

theorem emitIf_error {e : StepException} (h : (emitIf boundary "before" context).1 = .error e) :
    boundary ≠ "" ∧ isBoundaryId boundary = false ∧
      e = .other "Invalid destructive boundary identifier" := by
  by_cases hempty : boundary = ""
  · simp [emitIf, hempty] at h
  by_cases hid : isBoundaryId boundary
  · simp [emitIf, emitBoundary, boundaryMarker, hempty, hid] at h
  · simp only [emitIf, if_neg hempty, emitBoundary, boundaryMarker, hid] at h
    exact ⟨hempty, by simpa using hid, (Except.error.inj h).symm⟩

theorem guidedStepBoundary_cases : guidedStepBoundary context step = "" ∨
    guidedStepBoundary context step = "guided-step-" ++ step.id := by
  unfold guidedStepBoundary
  split
  exacts [.inr rfl, .inl rfl]

/-- The block under `try`: a marker that cannot be written stops it where it stands. -/
theorem attempt_ran (context : InstallContext F W)
    (hboundary : boundary = "" ∨ boundary = "guided-step-" ++ step.id) :
    ∃ body, Ran step body (attempt boundary step context).1 ∧
      Called context (attempt boundary step context).2 body := by
  have hbefore : Called context (emitIf boundary "before" context).2 [] := called_emitIf
  rcases hb : emitIf boundary "before" context with ⟨e | ⟨⟩, first⟩
  · rw [hb] at hbefore
    obtain ⟨hnonempty, hid, rfl⟩ := emitIf_error (congrArg Prod.fst hb)
    rw [hboundary.resolve_left hnonempty] at hid
    exact ⟨[], by simpa [attempt, andThen, hb] using .unmarked hid,
      by simpa [attempt, andThen, hb] using hbefore⟩
  rw [hb] at hbefore
  have hcall := called_call first step .execute
  have houtcome := call_outcome first step .execute
  rcases hx : first.call .execute step with ⟨e | ⟨⟩, second⟩
  · rw [hx] at hcall houtcome
    exact ⟨_, by simpa [attempt, andThen, hb, hx] using .raised first.state e houtcome.symm,
      by simpa [attempt, andThen, hb, hx] using hbefore.trans hcall⟩
  rw [hx] at hcall houtcome
  -- the second marker is as good as the first
  have hmarked : (emitIf boundary "after" second).1 = .ok () := by
    refine emitIf_ok ?_ (.inr rfl)
    by_contra hneither
    obtain ⟨hempty, hid⟩ := not_or.mp hneither
    simp [emitIf, emitBoundary, boundaryMarker, hempty, hid] at hb
  have hafter : Called second (emitIf boundary "after" second).2 [] := called_emitIf
  rcases ha : emitIf boundary "after" second with ⟨r, third⟩
  rw [ha] at hmarked hafter
  subst hmarked
  have hverify := called_call third step .verify
  refine ⟨_, ?_, by
    simpa [attempt, andThen, hb, hx, ha] using
      ((hbefore.trans hcall).trans hafter).trans hverify⟩
  simpa [attempt, andThen, hb, hx, ha, call_outcome] using
    Ran.verified first.state third.state houtcome.symm

theorem cleanupStep_called :
    Called context (cleanupStep context step) [⟨.cleanup, step, context.state⟩] := by
  have hcall := called_call context step .cleanup
  unfold cleanupStep
  rcases hx : context.call .cleanup step with ⟨e | ⟨⟩, after⟩
  · rw [hx] at hcall
    exact hcall.trans (called_log _)
  · rw [hx] at hcall
    exact hcall

theorem foldl_cleanupStep_called (steps : List (InstallStep F W)) (context : InstallContext F W) :
    ∃ calls, Called context (steps.foldl cleanupStep context) calls ∧
      calls.map key = steps.map fun step => (.cleanup, step) := by
  induction steps generalizing context with
  | nil => exact ⟨[], called_self, rfl⟩
  | cons step steps ih =>
    obtain ⟨calls, hcalled, hkeys⟩ := ih (cleanupStep context step)
    exact ⟨_, cleanupStep_called.trans hcalled, by simp [key, hkeys]⟩

theorem cleanupSteps_called (context : InstallContext F W) (executed : List (InstallStep F W)) :
    ∃ calls, Called context (cleanupSteps context executed) calls ∧
      calls.map key = executed.reverse.map fun step => (.cleanup, step) :=
  foldl_cleanupStep_called executed.reverse context

/-- The statements before `try`. -/
theorem beginStep_reports (total completed : ℤ) (step : InstallStep F W)
    (context : InstallContext F W) :
    (beginStep total completed step context).calls = context.calls ∧
    (beginStep total completed step context).progressed =
      context.progressed ++ [(step.id, completed, total)] ∧
    (beginStep total completed step context).destructiveStarted =
      (context.destructiveStarted || step.destructive) := by
  cases hd : step.destructive <;>
    simp [beginStep, hd, InstallContext.log, InstallContext.status, InstallContext.progress]

theorem preflightSteps_called (steps : List (InstallStep F W)) (context : InstallContext F W) :
    ∃ calls, Called context (preflightSteps steps context).2 calls ∧
      Preflighted steps calls (preflightSteps steps context).1 := by
  induction steps generalizing context with
  | nil => exact ⟨[], called_self, .nil⟩
  | cons step steps ih =>
    set logged := context.log ("[preflight:" ++ step.id ++ "] " ++ step.title)
    have hlog : Called context logged [] := called_log _
    have hcall := hlog.trans (called_call logged step .preflight)
    have houtcome := call_outcome logged step .preflight
    rw [preflightSteps]
    rcases hx : logged.call .preflight step with ⟨e | ⟨⟩, after⟩
    · rw [hx] at hcall houtcome
      exact ⟨_, (hcall.trans (called_log _)).trans (called_status _ _ _),
        .failed step steps logged.state e houtcome.symm⟩
    · rw [hx] at hcall houtcome
      obtain ⟨calls, hcalled, hpassed⟩ := ih after
      exact ⟨_, hcall.trans hcalled, .passed logged.state houtcome.symm hpassed⟩

end Parts

/-! ## The report of a run -/

section Reports

/-- What a run did from the context `context` on, where `executed` are the steps that had
succeeded by then. -/
structure Reported (total completed : ℤ) (steps : List (InstallStep F W))
    (results : List StepResult) (executed : List (InstallStep F W))
    (context : InstallContext F W) (courses : List (Course F W)) (unwound : List (StepCall F W))
    (ended : InstallResult × InstallContext F W) : Prop where
  followed : ∀ course ∈ courses, course.Followed
  calls : ended.2.calls = context.calls ++ courses.flatMap Course.calls ++ unwound
  unwound : unwound.map key = if ended.1.succeeded then [] else
    (executed ++ succeededSteps courses).reverse.map fun step => (.cleanup, step)
  results : ended.1.results = results ++ courses.map Course.result
  destructive : ended.1.destructiveStarted =
    (context.destructiveStarted || courses.any fun course => course.step.destructive)
  progressed : ended.2.progressed = context.progressed ++ beginnings total completed courses ++
    if ended.1.succeeded then [("complete", total, total)] else []
  finished : (ended.1.succeeded = true ∧ courses.map Course.step = steps ∧
      ∀ course ∈ courses, ¬ course.Fatal) ∨
    (ended.1.succeeded = false ∧ courses.map Course.step <+: steps ∧
      ∃ front last, courses = front ++ [last] ∧ last.Fatal ∧ ∀ course ∈ front, ¬ course.Fatal)

variable {total completed : ℤ} {steps executed : List (InstallStep F W)}
  {results : List StepResult} {context after : InstallContext F W} {course : Course F W}
  {courses : List (Course F W)} {unwound : List (StepCall F W)}
  {ended : InstallResult × InstallContext F W}

/-- The context after one turn of the loop. -/
structure Turned (total completed : ℤ) (context : InstallContext F W) (course : Course F W)
    (after : InstallContext F W) : Prop where
  followed : course.Followed
  calls : after.calls = context.calls ++ course.calls
  progressed : after.progressed = context.progressed ++ [(course.step.id, completed, total)]
  destructiveStarted : after.destructiveStarted =
    (context.destructiveStarted || course.step.destructive)

theorem Reported.cons (hturn : Turned total completed context course after)
    (hfatal : ¬ course.Fatal)
    (hrest : Reported total (completed + weight course.step) steps (results ++ [course.result])
      (executed ++ succeededSteps [course]) after courses unwound ended) :
    Reported total completed (course.step :: steps) results executed context (course :: courses)
      unwound ended where
  followed := by
    rintro other (_ | ⟨_, hother⟩)
    exacts [hturn.followed, hrest.followed other hother]
  calls := by rw [hrest.calls, hturn.calls]; simp
  unwound := by
    rw [hrest.unwound]
    cases hs : course.succeeded <;> simp [succeededSteps, hs]
  results := by rw [hrest.results]; simp
  destructive := by rw [hrest.destructive, hturn.destructiveStarted]; simp [Bool.or_assoc]
  progressed := by rw [hrest.progressed, hturn.progressed]; simp [beginnings]
  finished := by
    rcases hrest.finished with
      ⟨htrue, hsteps, hnone⟩ | ⟨hfalse, hsteps, front, last, rfl, hlast, hnone⟩
    · exact .inl ⟨htrue, by simp [hsteps], by simpa using ⟨hfatal, hnone⟩⟩
    · refine .inr ⟨hfalse, ?_, course :: front, last, rfl, hlast, by simpa using ⟨hfatal, hnone⟩⟩
      simpa using hsteps

theorem turned {step : InstallStep F W} {body undone : List (StepCall F W)}
    {outcome : Except StepException Unit} {tried : InstallContext F W}
    (hran : Ran step body outcome)
    (htried : Called (beginStep total completed step context) tried body)
    (hafter : Called tried after undone)
    (hundone : undone.map key = (Course.mk step body outcome undone).cleaned.map fun step =>
      (.cleanup, step)) :
    Turned total completed context ⟨step, body, outcome, undone⟩ after := by
  obtain ⟨hcalls, hprogressed, hstarted⟩ := beginStep_reports total completed step context
  have hall := htried.trans hafter
  exact ⟨⟨hran, hundone⟩, by rw [hall.calls, hcalls]; rfl,
    by rw [hall.progressed, hprogressed], by rw [hall.destructiveStarted, hstarted]⟩

theorem runSteps_reported (total : ℤ) (steps : List (InstallStep F W)) (completed : ℤ)
    (results : List StepResult) (executed : List (InstallStep F W))
    (context : InstallContext F W) :
    ∃ courses unwound, Reported total completed steps results executed context courses unwound
      (runSteps total steps completed results executed context) := by
  induction steps generalizing completed results executed context with
  | nil =>
    refine ⟨[], [], by simp, ?_, ?_, ?_, ?_, ?_, ?_⟩ <;>
      simp [runSteps, InstallContext.progress, beginnings]
  | cons step steps ih =>
    set begun := beginStep total completed step context with hbegun
    obtain ⟨body, hran, htried⟩ := attempt_ran begun (guidedStepBoundary_cases)
    rw [runSteps, ← hbegun]
    rcases hx : attempt (guidedStepBoundary begun step) step begun with ⟨e | ⟨⟩, tried⟩
    · rw [hx] at hran htried
      cases e with
      | stepSkipped message =>
        obtain ⟨courses, unwound, hrest⟩ := ih (completed + weight step)
          (results ++ [⟨step.id, .skipped, message⟩]) executed
          ((tried.log ("[" ++ step.id ++ "] skipped: " ++ message)).status step.id .skipped message)
        exact ⟨⟨step, body, _, []⟩ :: courses, unwound,
          .cons (turned hran htried ((called_log _).trans (called_status _ _ _)) rfl)
            (fun h => by simpa using h.2)
            (by simpa [succeededSteps, Course.succeeded, Course.result] using hrest)⟩
      | stepWarning message =>
        obtain ⟨undone, hundone, hkeys⟩ := cleanupSteps_called
          (tried.log ("[" ++ step.id ++ "] warning: " ++ message)) [step]
        obtain ⟨courses, unwound, hrest⟩ := ih (completed + weight step)
          (results ++ [⟨step.id, .warning, message⟩]) executed
          ((cleanupSteps (tried.log ("[" ++ step.id ++ "] warning: " ++ message)) [step]).status
            step.id .warning message)
        have hafter := ((called_log _).trans hundone).trans
          (called_status step.id .warning message)
        exact ⟨⟨step, body, _, undone⟩ :: courses, unwound,
          .cons (turned hran htried (by simpa using hafter) hkeys)
            (fun h => by simpa using h.2)
            (by simpa [succeededSteps, Course.succeeded, Course.result] using hrest)⟩
      | other message =>
        obtain ⟨undone, hundone, hkeys⟩ := cleanupSteps_called
          (tried.log ("[" ++ step.id ++ "] failed: " ++ message)) [step]
        have hcleaned := (called_log _).trans hundone
        dsimp only
        set cleaned := cleanupSteps (tried.log ("[" ++ step.id ++ "] failed: " ++ message)) [step]
        have hafter : ∀ status, Called tried (cleaned.status step.id status message) undone :=
          fun status => by simpa using hcleaned.trans (called_status step.id status message)
        cases hpolicy : step.failurePolicy with
        | fatal =>
          obtain ⟨unwound, hunwound, hwound⟩ := cleanupSteps_called
            (cleaned.status step.id .failed message) executed
          have hturn : Turned total completed context ⟨step, body, .error (.other message), undone⟩
              (cleaned.status step.id .failed message) :=
            turned hran htried (hafter .failed) hkeys
          refine ⟨[⟨step, body, .error (.other message), undone⟩], unwound,
            ?_, ?_, ?_, ?_, ?_, ?_, ?_⟩
          · simpa using hturn.followed
          · simp [hunwound.calls, hturn.calls]
          · simpa [succeededSteps, Course.succeeded] using hwound
          · simp [Course.result, hpolicy, policyStatus]
          · simp [hunwound.destructiveStarted, hturn.destructiveStarted]
          · simp [hunwound.progressed, hturn.progressed, beginnings]
          · exact .inr ⟨rfl, by simp, [], _, rfl, ⟨hpolicy, message, rfl⟩, by simp⟩
        | warning =>
          obtain ⟨courses, unwound, hrest⟩ := ih (completed + weight step)
            (results ++ [⟨step.id, .warning, message⟩]) executed
            (cleaned.status step.id .warning message)
          exact ⟨⟨step, body, _, undone⟩ :: courses, unwound,
            .cons (turned hran htried (hafter .warning) hkeys)
              (fun h => by simpa [hpolicy] using h.1)
              (by simpa [succeededSteps, Course.succeeded, Course.result, hpolicy, policyStatus]
                using hrest)⟩
        | bestEffort =>
          obtain ⟨courses, unwound, hrest⟩ := ih (completed + weight step)
            (results ++ [⟨step.id, .skipped, message⟩]) executed
            (cleaned.status step.id .skipped message)
          exact ⟨⟨step, body, _, undone⟩ :: courses, unwound,
            .cons (turned hran htried (hafter .skipped) hkeys)
              (fun h => by simpa [hpolicy] using h.1)
              (by simpa [succeededSteps, Course.succeeded, Course.result, hpolicy, policyStatus]
                using hrest)⟩
    · rw [hx] at hran htried
      obtain ⟨courses, unwound, hrest⟩ := ih (completed + weight step)
        (results ++ [⟨step.id, .succeeded, ""⟩]) (executed ++ [step])
        (tried.status step.id .succeeded "")
      exact ⟨⟨step, body, .ok (), []⟩ :: courses, unwound,
        .cons (turned hran htried (called_status _ _ _) rfl) (fun h => by simpa using h.2) hrest⟩

end Reports

/-! ## Checks and progress -/

section Outlines

variable {steps : List (InstallStep F W)} {checks : List (StepCall F W)}

theorem Preflighted.passed_all (h : Preflighted steps checks none) :
    checks.map key = steps.map (fun step => (.preflight, step)) ∧
      ∀ call ∈ checks, call.outcome = .ok () := by
  generalize hr : (none : Option StepResult) = result at h
  induction h with
  | nil => simp
  | passed before hok _ ih => simpa [key, hok] using ih hr
  | failed => cases hr

theorem Preflighted.stopped {failure : StepResult} (h : Preflighted steps checks (some failure)) :
    ∃ checked failed rest passed before e, steps = checked ++ failed :: rest ∧
      checks = passed ++ [⟨.preflight, failed, before⟩] ∧
      passed.map key = checked.map (fun step => (.preflight, step)) ∧
      (∀ call ∈ passed, call.outcome = .ok ()) ∧
      (StepCall.mk .preflight failed before).outcome = .error e ∧
      failure = ⟨failed.id, .failed,
        "Preflight failed for " ++ failed.id ++ ": " ++ e.message⟩ := by
  generalize hr : some failure = result at h
  induction h with
  | nil => cases hr
  | @passed step _ _ _ before hok _ ih =>
    obtain ⟨checked, failed, rest, passed, last, e, rfl, rfl, hkeys, hpassed, he, hfailure⟩ := ih hr
    exact ⟨step :: checked, failed, rest, ⟨.preflight, step, before⟩ :: passed, last, e, rfl, rfl,
      by simp [key, hkeys], by simpa [hok] using hpassed, he, hfailure⟩
  | failed step rest before e he =>
    exact ⟨[], step, rest, [], before, e, rfl, rfl, rfl, by simp, he, Option.some.inj hr⟩

theorem one_le_weight (step : InstallStep F W) : 1 ≤ weight step := le_max_left _ _

theorem totalWeight_cons (step : InstallStep F W) :
    totalWeight (step :: steps) = weight step + totalWeight steps := by
  simp [totalWeight]

theorem totalWeight_nonneg (steps : List (InstallStep F W)) : 0 ≤ totalWeight steps := by
  induction steps with
  | nil => simp [totalWeight]
  | cons step steps ih =>
    have hweight := one_le_weight step
    rw [totalWeight_cons]
    omega

theorem totalWeight_prefix {begun : List (InstallStep F W)} (h : begun <+: steps) :
    totalWeight begun ≤ totalWeight steps := by
  obtain ⟨rest, rfl⟩ := h
  have hrest := totalWeight_nonneg rest
  simp only [totalWeight, List.map_append, List.sum_append] at hrest ⊢
  omega

theorem beginnings_bounds (total completed : ℤ) (courses : List (Course F W)) :
    ∀ p ∈ beginnings total completed courses,
      completed ≤ p.2.1 ∧ p.2.1 < completed + totalWeight (courses.map Course.step) := by
  induction courses generalizing completed with
  | nil => simp [beginnings]
  | cons course courses ih =>
    have hweight := one_le_weight course.step
    have hrest := totalWeight_nonneg (courses.map Course.step)
    intro p hp
    simp only [beginnings, List.mem_cons] at hp
    rw [List.map_cons, totalWeight_cons]
    rcases hp with rfl | hp
    · exact ⟨le_refl _, by dsimp only; omega⟩
    · have hbounds := ih _ p hp
      omega

theorem beginnings_pairwise (total completed : ℤ) (courses : List (Course F W)) :
    (beginnings total completed courses).Pairwise fun p q => p.2.1 ≤ q.2.1 := by
  induction courses generalizing completed with
  | nil => exact .nil
  | cons course courses ih =>
    refine .cons (fun q hq => ?_) (ih _)
    have hweight := one_le_weight course.step
    have hbounds := beginnings_bounds total _ courses q hq
    dsimp only
    omega

end Outlines

/-! ## A whole run -/

/-- A run that passed all its checks. -/
structure RunReport (steps : List (InstallStep F W)) (checks : List (StepCall F W))
    (courses : List (Course F W)) (unwound : List (StepCall F W))
    (ended : InstallResult × InstallContext F W) : Prop where
  checked : checks.map key = steps.map fun step => (.preflight, step)
  passed : ∀ call ∈ checks, call.outcome = .ok ()
  followed : ∀ course ∈ courses, course.Followed
  calls : ended.2.calls = checks ++ courses.flatMap Course.calls ++ unwound
  unwound : unwound.map key = if ended.1.succeeded then [] else
    (succeededSteps courses).reverse.map fun step => (.cleanup, step)
  results : ended.1.results = courses.map Course.result
  destructive : ended.1.destructiveStarted = courses.any fun course => course.step.destructive
  finished : (ended.1.succeeded = true ∧ courses.map Course.step = steps ∧
      ∀ course ∈ courses, ¬ course.Fatal) ∨
    (ended.1.succeeded = false ∧ courses.map Course.step <+: steps ∧
      ∃ front last, courses = front ++ [last] ∧ last.Fatal ∧ ∀ course ∈ front, ¬ course.Fatal)
  ordered : (ended.2.progressed.map fun p => p.2.1).Pairwise (· ≤ ·)
  reached : (∃ p ∈ ended.2.progressed, p.2.1 = totalWeight steps) ↔ ended.1.succeeded = true

theorem Reported.beginnings_lt {total completed : ℤ} {steps executed : List (InstallStep F W)}
    {results : List StepResult} {context : InstallContext F W} {courses : List (Course F W)}
    {unwound : List (StepCall F W)} {ended : InstallResult × InstallContext F W}
    (h : Reported total completed steps results executed context courses unwound ended) :
    ∀ p ∈ beginnings total completed courses, p.2.1 < completed + totalWeight steps := by
  intro p hp
  have hprefix : courses.map Course.step <+: steps := by
    rcases h.finished with ⟨-, hsteps, -⟩ | ⟨-, hprefix, -⟩
    exacts [hsteps ▸ List.prefix_rfl, hprefix]
  have hbounds := beginnings_bounds total completed courses p hp
  have hweight := totalWeight_prefix hprefix
  omega

theorem Reported.runReport {steps : List (InstallStep F W)} {checks unwound : List (StepCall F W)}
    {courses : List (Course F W)} {context : InstallContext F W}
    {ended : InstallResult × InstallContext F W} (hchecks : Preflighted steps checks none)
    (hcalled : context.calls = checks) (hprogressed : context.progressed = [])
    (hstarted : context.destructiveStarted = false)
    (h : Reported (totalWeight steps) 0 steps [] [] context courses unwound ended) :
    RunReport steps checks courses unwound ended where
  checked := hchecks.passed_all.1
  passed := hchecks.passed_all.2
  followed := h.followed
  calls := by rw [h.calls, hcalled]
  unwound := by simpa using h.unwound
  results := by simpa using h.results
  destructive := by simpa [hstarted] using h.destructive
  finished := h.finished
  ordered := by
    rw [h.progressed, hprogressed, List.nil_append, List.map_append, List.pairwise_append]
    refine ⟨(beginnings_pairwise _ _ _).map _ fun _ _ h => h, by split <;> simp, ?_⟩
    intro done hdone last hlast
    obtain ⟨p, hp, rfl⟩ := List.mem_map.mp hdone
    have hlt := h.beginnings_lt p hp
    split at hlast
    · simp only [List.map_cons, List.map_nil, List.mem_singleton] at hlast
      omega
    · simp at hlast
  reached := by
    rw [h.progressed, hprogressed, List.nil_append]
    constructor
    · rintro ⟨p, hp, hreached⟩
      rcases List.mem_append.mp hp with hp | hp
      · have hlt := h.beginnings_lt p hp
        omega
      · by_contra hfailed
        simp [hfailed] at hp
    · intro hsucceeded
      exact ⟨("complete", totalWeight steps, totalWeight steps), by simp [hsucceeded], rfl⟩

/-- Either a check raises and nothing is executed or cleaned up, or every check passes and the
run is as its report says. -/
theorem run_reports (policy : ExecutionPolicy) (steps : List (InstallStep F W))
    (state : StepState F W) :
    (∃ checked failed rest passed before e, steps = checked ++ failed :: rest ∧
      (run steps (.fresh policy state)).2.calls = passed ++ [⟨.preflight, failed, before⟩] ∧
      passed.map key = checked.map (fun step => (.preflight, step)) ∧
      (∀ call ∈ passed, call.outcome = .ok ()) ∧
      (StepCall.mk .preflight failed before).outcome = .error e ∧
      (run steps (.fresh policy state)).1 = ⟨false, [⟨failed.id, .failed,
        "Preflight failed for " ++ failed.id ++ ": " ++ e.message⟩], false⟩ ∧
      (run steps (.fresh policy state)).2.progressed = []) ∨
    ∃ checks courses unwound,
      RunReport steps checks courses unwound (run steps (.fresh policy state)) := by
  obtain ⟨checks, hcalled, hchecks⟩ := preflightSteps_called steps (.fresh policy state)
  have hcalls : (preflightSteps steps (.fresh policy state)).2.calls = checks := hcalled.calls
  rcases hx : preflightSteps steps (.fresh policy state) with ⟨_ | failure, context⟩
  · rw [hx] at hcalled hchecks hcalls
    obtain ⟨courses, unwound, hreported⟩ :=
      runSteps_reported (totalWeight steps) steps 0 [] [] context
    refine .inr ⟨checks, courses, unwound, ?_⟩
    rw [run, hx]
    exact hreported.runReport hchecks hcalls hcalled.progressed hcalled.destructiveStarted
  · rw [hx] at hcalled hchecks hcalls
    obtain ⟨checked, failed, rest, passed, before, e, hsteps, rfl, hkeys, hpassed, he, rfl⟩ :=
      hchecks.stopped
    refine .inl ⟨checked, failed, rest, passed, before, e, hsteps, ?_, hkeys, hpassed, he, ?_, ?_⟩
    · rw [run, hx]
      exact hcalls
    · rw [run, hx]
    · rw [run, hx]
      exact hcalled.progressed

end StepRunner

end Installer
