import SynOSStudio.Installer.RunReports

/-!
# Runs of steps as compensated runs

The loop of the step runner carries out the steps as tasks that are undone when a fatal one fails.
So what holds between the steps, on the way forward and on the way back, gives what holds when a
run ends.
-/

namespace Installer

open CompensatedRuns

namespace StepRunner

variable {F W : Type}

def verdict (failurePolicy : FailurePolicy) : StepException → Verdict
  | .stepSkipped _ => .proceed
  | .stepWarning _ => .compensate
  | .other _ => if failurePolicy = .fatal then .abort else .compensate

def task (step : InstallStep F W) : Task (InstallContext F W) StepException where
  act context := attempt (guidedStepBoundary context step) step context
  undo context := cleanupStep context step
  verdict := verdict step.failurePolicy

/-! ## What the reports do not touch -/

section Agreement

/-- The contexts differ in what the callbacks were told at most. -/
structure Agree (c c' : InstallContext F W) : Prop where
  state : c.state = c'.state
  executionPolicy : c.executionPolicy = c'.executionPolicy
  calls : c.calls = c'.calls

variable {c c' : InstallContext F W} {step : InstallStep F W} {boundary phase : String}

theorem Agree.self : Agree c c := ⟨rfl, rfl, rfl⟩

theorem Agree.symm (h : Agree c c') : Agree c' c :=
  ⟨h.state.symm, h.executionPolicy.symm, h.calls.symm⟩

theorem Agree.trans {c'' : InstallContext F W} (h : Agree c c') (h' : Agree c' c'') : Agree c c'' :=
  ⟨h.state.trans h'.state, h.executionPolicy.trans h'.executionPolicy, h.calls.trans h'.calls⟩

theorem agree_log (message : String) : Agree (c.log message) c := ⟨rfl, rfl, rfl⟩

theorem agree_status (stepId : String) (status : StepStatus) (message : String) :
    Agree (c.status stepId status message) c := ⟨rfl, rfl, rfl⟩

theorem agree_beginStep (total completed : ℤ) : Agree (beginStep total completed step c) c := by
  unfold beginStep
  split <;> exact ⟨rfl, rfl, rfl⟩

theorem agree_emitIf : Agree (emitIf boundary phase c).2 c := by
  unfold emitIf emitBoundary
  split
  · exact .self
  · split
    exacts [.self, agree_log _]

theorem emitIf_outcome : (emitIf boundary phase c).1 = (emitIf boundary phase c').1 := by
  unfold emitIf emitBoundary
  split
  · rfl
  · split <;> rfl

/-- Contexts that agree end alike and agree afterwards. -/
def Agreeing (action : InstallContext F W → Except StepException Unit × InstallContext F W) :
    Prop :=
  ∀ ⦃c c'⦄, Agree c c' → (action c).1 = (action c').1 ∧ Agree (action c).2 (action c').2

theorem agreeing_call (phase : StepPhase) (step : InstallStep F W) :
    Agreeing fun c => c.call phase step := by
  intro c c' h
  simp only [InstallContext.call, h.state, h.calls]
  exact ⟨trivial, rfl, h.executionPolicy, rfl⟩

theorem agreeing_emitIf (boundary phase : String) :
    Agreeing (emitIf boundary phase : InstallContext F W → _) :=
  fun _ _ h => ⟨emitIf_outcome, (agree_emitIf.trans h).trans agree_emitIf.symm⟩

theorem Agreeing.andThen
    {first second : InstallContext F W → Except StepException Unit × InstallContext F W}
    (hfirst : Agreeing first) (hsecond : Agreeing second) : Agreeing (andThen first second) := by
  intro c c' h
  obtain ⟨houtcome, hagree⟩ := hfirst h
  unfold StepRunner.andThen
  rcases hx : first c with ⟨e | ⟨⟩, after⟩ <;> rcases hx' : first c' with ⟨e' | ⟨⟩, after'⟩ <;>
    rw [hx, hx'] at houtcome hagree
  · exact ⟨houtcome, hagree⟩
  · cases houtcome
  · cases houtcome
  · exact hsecond hagree

theorem agreeing_attempt (boundary : String) (step : InstallStep F W) :
    Agreeing (attempt boundary step) :=
  (agreeing_emitIf _ _).andThen <| (agreeing_call _ _).andThen <|
    (agreeing_emitIf _ _).andThen (agreeing_call _ _)

theorem Agree.boundary_eq (h : Agree c c') :
    guidedStepBoundary c step = guidedStepBoundary c' step := by
  unfold guidedStepBoundary
  rw [h.executionPolicy, h.state]

theorem agree_cleanupStep : Agree (cleanupStep c step) (c.call .cleanup step).2 := by
  unfold cleanupStep
  rcases hx : c.call .cleanup step with ⟨e | ⟨⟩, after⟩
  exacts [agree_log _, .self]

theorem Agree.cleaned (h : Agree c c') (step : InstallStep F W) :
    Agree (cleanupStep c step) (cleanupStep c' step) :=
  (agree_cleanupStep.trans (agreeing_call .cleanup step h).2).trans agree_cleanupStep.symm

theorem Agree.unwound (executed : List (InstallStep F W)) (h : Agree c c') :
    Agree (cleanupSteps c executed) (unwind (executed.reverse.map task) c') := by
  rw [cleanupSteps, unwind, List.foldl_map]
  generalize executed.reverse = steps
  induction steps generalizing c c' with
  | nil => exact h
  | cons step steps ih => exact ih (h.cleaned step)

end Agreement

/-! ## The loop is a compensated run -/

section Runs

variable {steps : List (InstallStep F W)} {c c' : InstallContext F W}

theorem runSteps_run (total : ℤ) (steps : List (InstallStep F W)) (completed : ℤ)
    (results : List StepResult) (executed : List (InstallStep F W)) (h : Agree c c') :
    (runSteps total steps completed results executed c).1.succeeded =
        (CompensatedRuns.run (steps.map task) (executed.reverse.map task) c').1 ∧
      Agree (runSteps total steps completed results executed c).2
        (CompensatedRuns.run (steps.map task) (executed.reverse.map task) c').2 := by
  induction steps generalizing completed results executed c c' with
  | nil => exact ⟨rfl, ⟨h.state, h.executionPolicy, h.calls⟩⟩
  | cons step steps ih =>
    have hbegun : Agree (beginStep total completed step c) c' := (agree_beginStep _ _).trans h
    rw [runSteps, List.map_cons, CompensatedRuns.run]
    set begun := beginStep total completed step c
    obtain ⟨houtcome, hagree⟩ := agreeing_attempt (guidedStepBoundary begun step) step hbegun
    have hact : (task step).act c' = attempt (guidedStepBoundary begun step) step c' := by
      rw [hbegun.boundary_eq]
      rfl
    rw [hact]
    rcases hx : attempt (guidedStepBoundary begun step) step begun with ⟨r, after⟩
    rcases hx' : attempt (guidedStepBoundary begun step) step c' with ⟨r', after'⟩
    rw [hx, hx'] at houtcome hagree
    obtain rfl : r = r' := houtcome
    cases r with
    | ok _ =>
      simpa using ih (completed + weight step) _ (executed ++ [step])
        ((agree_status step.id .succeeded "").trans hagree)
    | error e =>
      cases e with
      | stepSkipped message =>
        exact ih _ _ executed (((agree_status _ _ _).trans (agree_log _)).trans hagree)
      | stepWarning message =>
        exact ih _ _ executed
          ((agree_status _ _ _).trans (((agree_log _).trans hagree).cleaned step))
      | other message =>
        have hlogged := (agree_log ("[" ++ step.id ++ "] failed: " ++ message)).trans hagree
        have hcleaned := hlogged.cleaned step
        dsimp only [task, verdict]
        cases hpolicy : step.failurePolicy with
        | fatal =>
          exact ⟨rfl, ((agree_status step.id .failed message).trans hcleaned).unwound executed⟩
        | warning => exact ih _ _ executed ((agree_status _ _ _).trans hcleaned)
        | bestEffort => exact ih _ _ executed ((agree_status _ _ _).trans hcleaned)

/-! ## Assertions -/

/-- An assertion about the state and the calls made so far. -/
abbrev Assertion (F W : Type) := StepState F W → List (StepCall F W) → Prop

def On (A : Assertion F W) (context : InstallContext F W) : Prop := A context.state context.calls

theorem Agree.on {A : Assertion F W} (h : Agree c c') : On A c ↔ On A c' := by
  unfold On
  rw [h.state, h.calls]

variable {A U B V : Assertion F W} {step : InstallStep F W}

/-- A step none of whose methods takes a state out of the assertion. -/
def Keeps (A : Assertion F W) (step : InstallStep F W) : Prop :=
  ∀ phase state calls, A state calls →
    A (step.method phase state).2 (calls ++ [⟨phase, step, state⟩])

theorem Keeps.call (h : Keeps A step) (phase : StepPhase) (hc : On A c) :
    On A (c.call phase step).2 :=
  h phase c.state c.calls hc

theorem on_andThen
    {first second : InstallContext F W → Except StepException Unit × InstallContext F W}
    (hfirst : ∀ c, On A c → On A (first c).2) (hsecond : ∀ c, On A c → On A (second c).2)
    (hc : On A c) : On A (andThen first second c).2 := by
  have hafter := hfirst c hc
  unfold andThen
  rcases hx : first c with ⟨e | ⟨⟩, after⟩ <;> rw [hx] at hafter
  exacts [hafter, hsecond after hafter]

theorem Keeps.leg (hA : Keeps A step) (hU : Keeps U step) (hAU : ∀ state calls, A state calls →
    U state calls) : Leg (task step) (On A) (On U) (On A) (On U) := by
  have hmarked : ∀ (boundary phase : String) (c : InstallContext F W), On A c →
      On A (emitIf boundary phase c).2 := fun _ _ c hc => agree_emitIf.on.mpr hc
  refine .of_keeping (fun c hc => ?_) (fun c hc => ?_) (fun c hc => ?_) fun c hc => hAU _ _ hc
  · exact on_andThen (hmarked _ _) (fun c hc => on_andThen (fun c hc => hA.call _ hc)
      (fun c hc => on_andThen (hmarked _ _) (fun c hc => hA.call _ hc) hc) hc) hc
  · exact agree_cleanupStep.on.mpr (hA.call .cleanup hc)
  · exact agree_cleanupStep.on.mpr (hU.call .cleanup hc)

/-- A method that takes the first assertion to the second where it returns, and to the third where
it raises; and it raises ordinary exceptions only. -/
def Goes (step : InstallStep F W) (phase : StepPhase) (A B E : Assertion F W) : Prop :=
  ∀ state calls, A state calls →
    ((step.method phase state).1 = .ok () →
      B (step.method phase state).2 (calls ++ [⟨phase, step, state⟩])) ∧
    ∀ e, (step.method phase state).1 = .error e → (∃ message, e = .other message) ∧
      E (step.method phase state).2 (calls ++ [⟨phase, step, state⟩])

/-- Actions that end in one of two assertions. -/
def Leads (action : InstallContext F W → Except StepException Unit × InstallContext F W)
    (A B E : Assertion F W) : Prop :=
  ∀ c, On A c → ((action c).1 = .ok () → On B (action c).2) ∧
    ∀ e, (action c).1 = .error e → (∃ message, e = .other message) ∧ On E (action c).2

variable {M E : Assertion F W}

theorem Goes.leads {phase : StepPhase} (h : Goes step phase A B E) :
    Leads (fun c => c.call phase step) A B E :=
  fun c hc => h c.state c.calls hc

theorem leads_emitIf (boundary phase : String) (hAE : ∀ state calls, A state calls →
    E state calls) : Leads (emitIf boundary phase) A A E := by
  refine fun c hc => ⟨fun _ => agree_emitIf.on.mpr hc, fun e he => ⟨?_, ?_⟩⟩
  · unfold emitIf emitBoundary boundaryMarker at he
    split_ifs at he <;> exact ⟨_, (Except.error.inj he).symm⟩
  · exact agree_emitIf.on.mpr (hAE _ _ hc)

theorem Leads.andThen
    {first second : InstallContext F W → Except StepException Unit × InstallContext F W}
    (hfirst : Leads first A M E) (hsecond : Leads second M B E) :
    Leads (andThen first second) A B E := by
  intro c hc
  obtain ⟨hok, herror⟩ := hfirst c hc
  unfold StepRunner.andThen
  rcases hx : first c with ⟨e | ⟨⟩, after⟩ <;> rw [hx] at hok herror
  · exact ⟨fun h => absurd h (by simp), herror⟩
  · exact hsecond after (hok rfl)

/-- A fatal step whose cleanup leads back from wherever its methods may have left off. -/
theorem leg_of_fatal (hpolicy : step.failurePolicy = .fatal) (hexecute : Goes step .execute A M E)
    (hverify : Goes step .verify M B E) (hAE : ∀ state calls, A state calls → E state calls)
    (hME : ∀ state calls, M state calls → E state calls)
    (hcleanup : ∀ state calls, E state calls →
      U (step.cleanup state).2 (calls ++ [⟨.cleanup, step, state⟩]))
    (hback : ∀ state calls, V state calls →
      U (step.cleanup state).2 (calls ++ [⟨.cleanup, step, state⟩])) :
    Leg (task step) (On A) (On U) (On B) (On V) := by
  have hattempt : ∀ boundary, Leads (attempt boundary step) A B E := fun boundary =>
    (leads_emitIf boundary "before" hAE).andThen <| hexecute.leads.andThen <|
      (leads_emitIf boundary "after" hME).andThen hverify.leads
  refine .of_aborting (fun c e hc he => ?_) (fun c hc hok => ?_) (fun c e hc he => ?_)
    fun c hc => ?_
  · obtain ⟨⟨message, rfl⟩, -⟩ := (hattempt _ c hc).2 e he
    simp [task, verdict, hpolicy]
  · exact (hattempt _ c hc).1 hok
  · exact agree_cleanupStep.on.mpr (hcleanup _ _ ((hattempt _ c hc).2 e he).2)
  · exact agree_cleanupStep.on.mpr (hback _ _ hc)

theorem preflightSteps_on (hkeeps : ∀ step ∈ steps, ∀ state calls, A state calls →
      A (step.preflight state).2 (calls ++ [⟨.preflight, step, state⟩])) (hc : On A c) :
    On A (preflightSteps steps c).2 := by
  induction steps generalizing c with
  | nil => exact hc
  | cons step steps ih =>
    have hcalled : On A
        ((c.log ("[preflight:" ++ step.id ++ "] " ++ step.title)).call .preflight step).2 :=
      hkeeps step (by simp) _ _ hc
    rw [preflightSteps]
    rcases hx : (c.log ("[preflight:" ++ step.id ++ "] " ++ step.title)).call .preflight step with
      ⟨e | ⟨⟩, after⟩ <;> rw [hx] at hcalled
    · exact hcalled
    · exact ih (fun other hother => hkeeps other (by simp [hother])) hcalled

/-- A run that succeeds goes all the way along its chain, one that fails all the way back. -/
theorem run_chain (hkeeps : ∀ step ∈ steps, ∀ state calls, A state calls →
      A (step.preflight state).2 (calls ++ [⟨.preflight, step, state⟩]))
    (hchain : Chain (steps.map task) (On A) (On U) (On B) (On V))
    (hAU : ∀ state calls, A state calls → U state calls) (hc : On A c) :
    ((run steps c).1.succeeded = true → On B (run steps c).2) ∧
      ((run steps c).1.succeeded = false → On U (run steps c).2) := by
  have hchecked := preflightSteps_on hkeeps hc
  unfold run
  rcases hx : preflightSteps steps c with ⟨_ | failed, after⟩ <;> rw [hx] at hchecked
  · obtain ⟨hsucceeded, hagree⟩ :=
      runSteps_run (totalWeight steps) steps 0 [] [] (Agree.self (c := after))
    obtain ⟨hforward, hback⟩ := hchain.run after hchecked
    exact ⟨fun h => hagree.on.mpr (hforward (hsucceeded.symm.trans h)),
      fun h => hagree.on.mpr (hback (hsucceeded.symm.trans h))⟩
  · exact ⟨fun h => absurd h (by simp), fun _ => hAU _ _ hchecked⟩

end Runs

end StepRunner

end Installer
