import SynOSStudio.Installer.ClosedRuns
import SynOSStudio.Installer.Executor
import SynOSStudio.Installer.PlanBoundary

/-!
# Whole installations

The mounts of a run of the pipeline are gone when it ends, and the files that were replaced in the
target are as they were when the isolated environment was opened.
-/

namespace Installer

open CompensatedRuns StepRunner StrictDocuments

variable {F R : Type} {host : TargetHost} {target : Location} {base : List Location}

/-! ## Assertions between the steps -/

section Stages

/-- An assertion that does not depend on the calls. -/
def Seen (P : View) : Assertion F (TargetValues R) := fun state _ => See P state.values

/-- The two files are as they were when the environment was opened. -/
def Since (P : (GuestFile → GuestNode) → View) : Assertion F (TargetValues R) :=
  fun state calls => ∃ call ∈ calls, call.phase = .execute ∧ call.step.id = "enter-chroot" ∧
    See (P call.before.values.files) state.values

/-- A step that leaves the mounts alone, and the record of them, and makes no directory of either
file. -/
def LeavesMounts (step : InstallStep F (TargetValues R)) : Prop :=
  ∀ phase state, (step.method phase state).2.values.held = state.values.held ∧
    ∀ file, state.values.files file ≠ .other →
      (step.method phase state).2.values.files file ≠ .other

/-- A view that the steps between two of the four do not leave. -/
def Steadfast (P : View) : Prop :=
  ∀ held files files', P held files → (∀ file, files file ≠ .other → files' file ≠ .other) →
    P held files'

theorem LeavesMounts.seen {step : InstallStep F (TargetValues R)} {P : View}
    (hquiet : LeavesMounts step)
    (hP : Steadfast P) : Keeps (Seen P) step := by
  intro phase state calls h
  obtain ⟨hheld, hfiles⟩ := hquiet phase state
  have hkept := hP _ _ _ h hfiles
  unfold Seen See
  rw [hheld]
  exact hkept

theorem LeavesMounts.since {step : InstallStep F (TargetValues R)}
    {P : (GuestFile → GuestNode) → View} (hquiet : LeavesMounts step)
    (hP : ∀ entered, Steadfast (P entered)) : Keeps (Since P) step := by
  intro phase state calls ⟨call, hcall, hphase, hid, h⟩
  exact ⟨call, List.mem_append_left _ hcall, hphase, hid,
    hquiet.seen (hP call.before.values.files) phase state calls h⟩

theorem quiet_chain {A U : Assertion F (TargetValues R)}
    {steps : List (InstallStep F (TargetValues R))} (hA : ∀ step ∈ steps, Keeps A step)
    (hU : ∀ step ∈ steps, Keeps U step) (hAU : ∀ state calls, A state calls → U state calls) :
    Chain (steps.map task) (On A) (On U) (On A) (On U) := by
  induction steps with
  | nil => exact .nil _ _
  | cons step steps ih =>
    exact .cons ((hA step (by simp)).leg (hU step (by simp)) hAU)
      (ih (fun other h => hA other (by simp [h])) fun other h => hU other (by simp [h]))

theorem goes_of_ends {step : InstallStep F (TargetValues R)} {phase : StepPhase}
    {A B E : Assertion F (TargetValues R)} (action : InstallPlan F → TargetAction R PUnit)
    (hmethod : step.method phase = methodOf action)
    (h : ∀ state calls, A state calls → match action state.plan state.values with
      | .ok _ values => B { state with values := values } (calls ++ [⟨phase, step, state⟩])
      | .error _ values => E { state with values := values } (calls ++ [⟨phase, step, state⟩])) :
    Goes step phase A B E := by
  intro state calls hA
  have hend := h state calls hA
  rw [hmethod]
  unfold methodOf
  cases hx : action state.plan state.values with
  | ok _ values =>
    rw [hx] at hend
    exact ⟨fun _ => hend, fun e he => absurd he (by simp)⟩
  | error message values =>
    rw [hx] at hend
    exact ⟨fun hok => absurd hok (by simp),
      fun e he => ⟨⟨message, (Except.error.inj he).symm⟩, hend⟩⟩

theorem goes_seen {step : InstallStep F (TargetValues R)} {phase : StepPhase} {P Q E : View}
    (action : InstallPlan F → TargetAction R PUnit)
    (hmethod : step.method phase = methodOf action)
    (h : ∀ plan, Ends (See P) (action plan) (fun _ => See Q) (See E)) :
    Goes step phase (Seen P) (Seen Q) (Seen E) := by
  refine goes_of_ends action hmethod fun state calls hstate => ?_
  have hend := h state.plan state.values hstate
  cases hx : action state.plan state.values with
  | ok _ values =>
    rw [hx] at hend
    exact hend
  | error message values =>
    rw [hx] at hend
    exact hend

end Stages

/-! ## The legs of the four steps -/

section Legs

variable (F R host target base)

/-- Before the target is mounted, while it is, in the environment, and after it: on the way
forward. -/
def Cleared : Assertion F (TargetValues R) :=
  Seen fun held _ => MountsAt false false false [] base held

def MountedTarget : Assertion F (TargetValues R) := Seen fun held _ => Complete target base held

def Entered : Assertion F (TargetValues R) :=
  Since fun entered => AllSaved target base (chrootLocations target) entered

def LeftTarget : Assertion F (TargetValues R) :=
  Since fun entered held files => Complete target base held ∧ files = entered

def Finished : Assertion F (TargetValues R) :=
  Since fun entered held files => (held.mounts = base ∧ files = entered) ∧
    Winding target base held files

/-- The same places on the way back. -/
def Gone : Assertion F (TargetValues R) :=
  Seen fun held _ => Steady host target → held.mounts = base

def MountedBack : Assertion F (TargetValues R) := Seen (Undoable host target base)

def EnteredBack : Assertion F (TargetValues R) := Seen (Windable host target base)

variable {F R host target base}

theorem mountTarget_leg (hbase : Apart target base) :
    Leg (task (mountTargetStep host target)) (On (Cleared F R base))
      (On (Gone F R host target base)) (On (MountedTarget F R target base))
      (On (MountedBack F R host target base)) := by
  have hcleanup : ∀ state calls, MountedBack F R host target base state calls →
      Gone F R host target base ((mountTargetStep host target).cleanup state).2
        (calls ++ [⟨.cleanup, mountTargetStep host target, state⟩]) := by
    intro state calls h hsteady
    have hend := mountTarget_cleanup hsteady hbase state.values (h hsteady)
    cases hx : MountTargetStep.cleanup host target state.values with
    | ok _ values => simpa [hx, mountTargetStep, methodOf, See] using hend
    | error message values => simp [hx] at hend
  refine leg_of_fatal (M := MountedTarget F R target base) (E := MountedBack F R host target base)
    rfl (goes_seen (fun plan =>
        MountTargetStep.execute host target plan.storage.filesystem) rfl
      fun plan => mountTarget_execute plan.storage.filesystem)
    (goes_seen (fun _ => MountTargetStep.verify host target) rfl
      fun _ => mountTarget_verify fun held files h => h.undoable files)
    (fun state calls h => h.cleared_undoable state.values.files)
    (fun state calls h => h.undoable state.values.files) hcleanup hcleanup

/-- Closing the environment takes every state of the way back one place further. -/
theorem leaveChroot_back (hbase : Apart target base) (check : Bool) (values : TargetValues R)
    (h : See (Windable host target base) values) : match leaveChroot host check values with
      | .ok _ values => See (fun held files => Steady host target → Wound target base held files)
          values
      | .error _ values => See (fun _ _ => Steady host target → False) values := by
  cases hx : leaveChroot host check values with
  | ok _ values' =>
    intro hsteady
    have hend := leaveChroot_winds check hsteady hbase values (h hsteady)
    rw [hx] at hend
    exact hend
  | error message values' =>
    intro hsteady
    have hend := leaveChroot_winds check hsteady hbase values (h hsteady)
    rw [hx] at hend
    exact hend

theorem leave_cleanup (hbase : Apart target base) (step : InstallStep F (TargetValues R))
    (hstep : step.cleanup = methodOf fun _ => leaveChroot host false) (state : StepState F _)
    (h : See (Windable host target base) state.values) (hsteady : Steady host target) :
    Wound target base (step.cleanup state).2.values.held (step.cleanup state).2.values.files := by
  have hend := leaveChroot_back hbase false state.values h
  rw [hstep]
  cases hx : leaveChroot host false state.values with
  | ok _ values =>
    rw [hx] at hend
    simpa [methodOf, hx] using hend hsteady
  | error message values =>
    rw [hx] at hend
    exact (hend hsteady).elim

theorem enterChroot_leg (hbase : Apart target base) :
    Leg (task (enterChrootStep host target)) (On (MountedTarget F R target base))
      (On (MountedBack F R host target base)) (On (Entered F R target base))
      (On (EnteredBack F R host target base)) := by
  have hcleanup : ∀ state calls, EnteredBack F R host target base state calls →
      MountedBack F R host target base ((enterChrootStep host target).cleanup state).2
        (calls ++ [⟨.cleanup, enterChrootStep host target, state⟩]) := fun state calls h hsteady =>
    (leave_cleanup hbase (enterChrootStep host target) rfl state h hsteady).1
  refine leg_of_fatal (M := Entered F R target base) (E := EnteredBack F R host target base)
    rfl (goes_of_ends (fun _ => EnterChrootStep.execute host) rfl fun state calls h => ?_)
    (goes_of_ends (fun _ => EnterChrootStep.verify host) rfl fun state calls h => ?_)
    (fun state calls h hsteady => ?_) (fun state calls ⟨_, _, _, _, h⟩ hsteady => h.winding)
    hcleanup hcleanup
  · have hend := enterChroot_execute host state.values.files state.values ⟨h, rfl⟩
    cases hx : EnterChrootStep.execute host state.values with
    | ok _ values =>
      rw [hx] at hend
      exact ⟨_, List.mem_append_right _ (List.mem_singleton.mpr rfl), rfl, rfl, hend⟩
    | error message values =>
      rw [hx] at hend
      exact hend
  · obtain ⟨call, hcall, hphase, hid, h⟩ := h
    have hend := enterChroot_verify host (E := Windable host target base)
      (fun _ _ h _ => h.winding) state.values h
    cases hx : EnterChrootStep.verify host state.values with
    | ok _ values =>
      rw [hx] at hend
      exact ⟨call, List.mem_append_left _ hcall, hphase, hid, hend⟩
    | error message values =>
      rw [hx] at hend
      exact hend
  · have hcomplete : Complete target base state.values.held := h
    refine ⟨⟨_, [], hcomplete.recorded_all⟩, hcomplete.target, fun file hsome => ?_⟩
    simp [hcomplete.backups file] at hsome

theorem leaveChroot_verify {P E : View} (hPE : ∀ held files, P held files → E held files) :
    Ends (See P) (LeaveChrootStep.verify : TargetAction R PUnit) (fun _ => See P) (See E) := by
  refine Ends.get.bind fun values => ?_
  refine .ite (fun _ => .throw fun _ h => hPE _ _ h.2) fun _ => ?_
  exact .ite (fun _ => .throw fun _ h => hPE _ _ h.2) fun _ => .pure _ fun _ h => h.2

theorem unmountTarget_verify {P E : View} (hPE : ∀ held files, P held files → E held files) :
    Ends (See P) (UnmountTargetStep.verify : TargetAction R PUnit) (fun _ => See P) (See E) := by
  refine Ends.get.bind fun values => ?_
  exact .ite (fun _ => .throw fun _ h => hPE _ _ h.2) fun _ => .pure _ fun _ h => h.2

/-- A method that goes on from what was true since the environment was opened. -/
theorem goes_since {step : InstallStep F (TargetValues R)} {phase : StepPhase}
    {P Q : (GuestFile → GuestNode) → View} {E : View} (action : TargetAction R PUnit)
    (hmethod : step.method phase = methodOf fun _ => action)
    (h : ∀ entered, Ends (See (P entered)) action (fun _ => See (Q entered)) (See E)) :
    Goes step phase (Since P) (Since Q) (Seen E) := by
  refine goes_of_ends _ hmethod fun state calls hstate => ?_
  obtain ⟨call, hcall, hphase, hid, hvalues⟩ := hstate
  have hend := h call.before.values.files state.values hvalues
  cases hx : action state.values with
  | ok _ values =>
    rw [hx] at hend
    exact ⟨call, List.mem_append_left _ hcall, hphase, hid, hend⟩
  | error message values =>
    rw [hx] at hend
    exact hend

theorem Complete.winding {held : HeldMounts} (h : Complete target base held)
    (files : GuestFile → GuestNode) : Winding target base held files := by
  refine ⟨⟨_, [], h.recorded_all⟩, h.target, fun file hsome => ?_⟩
  simp [h.backups file] at hsome

theorem leaveChroot_leg (hbase : Apart target base) :
    Leg (task (leaveChrootStep host)) (On (Entered F R target base))
      (On (EnteredBack F R host target base)) (On (LeftTarget F R target base))
      (On (EnteredBack F R host target base)) := by
  have hcleanup : ∀ state calls, EnteredBack F R host target base state calls →
      EnteredBack F R host target base ((leaveChrootStep host).cleanup state).2
        (calls ++ [⟨.cleanup, leaveChrootStep host, state⟩]) := fun state calls h hsteady =>
    (leave_cleanup hbase (leaveChrootStep host) rfl state h hsteady).winding
  refine leg_of_fatal (M := LeftTarget F R target base) (E := EnteredBack F R host target base) rfl
    (goes_since (leaveChroot host true) rfl fun _ => leaveChroot_finishes hbase)
    (goes_since LeaveChrootStep.verify rfl fun _ =>
      leaveChroot_verify fun _ files h _ => h.1.winding files)
    (fun state calls ⟨_, _, _, _, h⟩ _ => h.winding)
    (fun state calls ⟨_, _, _, _, h⟩ _ => h.1.winding _) hcleanup hcleanup

theorem unmountTarget_leg :
    Leg (task (unmountTargetStep host)) (On (LeftTarget F R target base))
      (On (EnteredBack F R host target base)) (On (Finished F R target base))
      (On (EnteredBack F R host target base)) := by
  refine leg_of_fatal (M := Finished F R target base) (E := EnteredBack F R host target base) rfl
    (goes_since (UnmountTargetStep.execute host) rfl fun _ => unmountTarget_execute)
    (goes_since UnmountTargetStep.verify rfl fun _ =>
      unmountTarget_verify fun _ _ h _ => h.2)
    (fun state calls ⟨_, _, _, _, h⟩ _ => h.1.winding _)
    (fun state calls ⟨_, _, _, _, h⟩ _ => h.2) (fun _ _ h => h) fun _ _ h => h

end Legs

/-! ## The pipeline -/

section Pipelines

variable {truthy : Json F → Bool} {steps : PipelineSteps F (TargetValues R)}
  {plan : InstallPlan F}

theorem steadfast_held {P : HeldMounts → Prop} : Steadfast fun held _ => P held :=
  fun _ _ _ h _ => h

theorem winding_steadfast : Steadfast (Winding target base) :=
  fun _ _ _ h hfiles => ⟨h.1, h.2.1, fun file hsome => hfiles file (h.2.2 file hsome)⟩

theorem installation_chain (hbase : Apart target base)
    (hquiet : ∀ step ∈ steps.all, LeavesMounts step) :
    Chain ((buildSteps truthy host target steps plan).map task) (On (Cleared F R base))
      (On (Gone F R host target base)) (On (Finished F R target base))
      (On (EnteredBack F R host target base)) := by
  have hentered : ∀ entered, Steadfast
      (AllSaved target base (chrootLocations target) entered) := fun _ _ _ _ h => h.of_files
  have hwindable : Steadfast (Windable host target base) :=
    fun held files files' h hfiles hsteady =>
    winding_steadfast held files files' (h hsteady) hfiles
  rw [buildSteps_eq, List.map_append, List.map_cons, List.map_append, List.map_cons,
    List.map_append]
  refine Chain.append (quiet_chain (fun step h => ?_) (fun step h => ?_) fun state calls h => ?_) <|
    .cons (mountTarget_leg hbase) <|
    Chain.append (quiet_chain (fun step h => ?_) (fun step h => ?_) fun state calls h => ?_) <|
    .cons (enterChroot_leg hbase) <|
    Chain.append (quiet_chain (fun step h => ?_) (fun step h => ?_) fun state calls h => ?_) <|
    .cons (leaveChroot_leg hbase) <| .cons unmountTarget_leg <| .nil _ _
  · exact (hquiet step (PipelineSteps.mem_all_of_before h)).seen steadfast_held
  · exact (hquiet step (PipelineSteps.mem_all_of_before h)).seen steadfast_held
  · exact fun _ => h.mounts
  · exact (hquiet step (PipelineSteps.mem_all_of_mounted h)).seen steadfast_held
  · exact (hquiet step (PipelineSteps.mem_all_of_mounted h)).seen steadfast_held
  · exact h.undoable state.values.files
  · exact (hquiet step (PipelineSteps.mem_all_of_inside h)).since hentered
  · exact (hquiet step (PipelineSteps.mem_all_of_inside h)).seen hwindable
  · obtain ⟨_, _, _, _, h⟩ := h
    exact fun _ => h.winding

/-- The context has no values yet. -/
def HeldMounts.initial (mounts : List Location) : HeldMounts where
  mounts := mounts
  target := none
  topLevelMounted := false
  rootMounted := false
  efiMounted := false
  btrfsMounts := []
  chrootMounts := []
  environmentReady := false
  backups _ := none

theorem preflight_keeps {step : InstallStep F (TargetValues R)} {P : View}
    (action : InstallPlan F → TargetAction R PUnit) (hmethod : step.preflight = methodOf action)
    (h : ∀ plan, Ends (See P) (action plan) (fun _ => See P) (See P)) (state : StepState F _)
    (calls : List (StepCall F (TargetValues R))) (hstate : Seen P state calls) :
    Seen P (step.preflight state).2 (calls ++ [⟨.preflight, step, state⟩]) := by
  have hend := h state.plan state.values hstate
  unfold Seen
  rw [hmethod, methodOf]
  cases hx : action state.plan state.values with
  | ok _ values =>
    rw [hx] at hend
    exact hend
  | error message values =>
    rw [hx] at hend
    exact hend

theorem mountTarget_preflight {P : View} (filesystem : Filesystem) :
    Ends (See P) (MountTargetStep.preflight host target filesystem : TargetAction R PUnit)
      (fun _ => See P) (See P) := by
  have hsame : ∀ held files, P held files → P held files := fun _ _ h => h
  refine (ends_requireCommands hsame).bind fun _ => (ends_findmnt hsame).bind fun answer => ?_
  exact .ite (fun _ => .throw fun _ h => h) fun _ => .pure _ fun _ h => h

theorem enterChroot_preflight {P : View} :
    Ends (See P) (EnterChrootStep.preflight host target : TargetAction R PUnit)
      (fun _ => See P) (See P) := by
  have hsame : ∀ held files, P held files → P held files := fun _ _ h => h
  refine (ends_requireCommands hsame).bind fun _ => Ends.forM (fun _ => See P) (fun name _ => ?_) _
  refine (ends_findmnt hsame).bind fun answer => ?_
  exact .ite (fun _ => .throw fun _ h => h) fun _ => .pure _ fun _ h => h

theorem preflights_keep (hquiet : ∀ step ∈ steps.all, LeavesMounts step) :
    ∀ step ∈ buildSteps truthy host target steps plan, ∀ state calls,
      Cleared F R base state calls →
        Cleared F R base (step.preflight state).2 (calls ++ [⟨.preflight, step, state⟩]) := by
  have hkeeps : ∀ step ∈ steps.all, ∀ state calls, Cleared F R base state calls →
      Cleared F R base (step.preflight state).2 (calls ++ [⟨.preflight, step, state⟩]) :=
    fun step h => (hquiet step h).seen steadfast_held .preflight
  intro step hstep
  rw [buildSteps_eq] at hstep
  simp only [List.mem_append, List.mem_cons, List.not_mem_nil, or_false] at hstep
  rcases hstep with h | rfl | h | rfl | h | rfl | rfl
  · exact hkeeps step (PipelineSteps.mem_all_of_before h)
  · exact preflight_keeps (fun plan =>
      MountTargetStep.preflight host target plan.storage.filesystem) rfl
      fun plan => mountTarget_preflight plan.storage.filesystem
  · exact hkeeps step (PipelineSteps.mem_all_of_mounted h)
  · exact preflight_keeps (fun _ => EnterChrootStep.preflight host target) rfl
      fun _ => enterChroot_preflight
  · exact hkeeps step (PipelineSteps.mem_all_of_inside h)
  · exact fun _ _ h => h
  · exact preflight_keeps (fun _ => UnmountTargetStep.preflight host) rfl
      fun _ => ends_requireCommands fun _ _ h => h

theorem installation_ends (hbase : Apart target base)
    (hquiet : ∀ step ∈ steps.all, LeavesMounts step)
    (policy : ExecutionPolicy) (state : StepState F (TargetValues R))
    (hstart : state.values.held = .initial base) :
    ((run (buildSteps truthy host target steps plan) (.fresh policy state)).1.succeeded = true →
      On (Finished F R target base)
        (run (buildSteps truthy host target steps plan) (.fresh policy state)).2) ∧
    ((run (buildSteps truthy host target steps plan) (.fresh policy state)).1.succeeded = false →
      On (Gone F R host target base)
        (run (buildSteps truthy host target steps plan) (.fresh policy state)).2) := by
  refine run_chain (preflights_keep hquiet) (installation_chain hbase hquiet)
    (fun _ _ h _ => h.mounts) ?_
  show MountsAt false false false [] base state.values.held
  rw [hstart]
  exact ⟨rfl, rfl, rfl, rfl, rfl, rfl, fun _ => rfl⟩

/-- A run that fails, at whatever step and in whatever way, leaves none of its mounts behind. -/
theorem failed_installation_unmounts (hbase : Apart target base)
    (hquiet : ∀ step ∈ steps.all, LeavesMounts step) (hsteady : Steady host target)
    (policy : ExecutionPolicy) (state : StepState F (TargetValues R))
    (hstart : state.values.held = .initial base)
    (hfailed : (run (buildSteps truthy host target steps plan)
      (.fresh policy state)).1.succeeded = false) :
    (run (buildSteps truthy host target steps plan)
      (.fresh policy state)).2.state.values.held.mounts = base :=
  (installation_ends hbase hquiet policy state hstart).2 hfailed hsteady

/-- A machine on which everything works but, where so chosen, the mounting of the ESP. -/
def workingHost (espFails : Bool) : TargetHost where
  ends op _ :=
    match op with
    | .mount _ "/dev/vda1" _ => if espFails then .exited else .done
    | _ => .done
  refusal _ := "Command exited with 32"
  findmnt location n :=
    .ok (if n < 5 then none
      else if location = ["target", "boot", "efi"] then some "/dev/vda1" else some "/dev/vda3")
  isPresent _ := true
  realpath device := device
  resolver := []
  newMode := 0o644
  linkIsExecutable _ := false

def idleStep : InstallStep Unit (TargetValues Unit) :=
  ⟨"idle", "", .fatal, 1, false, nothing, nothing, nothing, nothing⟩

def idlePipeline : PipelineSteps Unit (TargetValues Unit) :=
  ⟨idleStep, idleStep, idleStep, idleStep, idleStep, idleStep, idleStep, idleStep, idleStep,
    idleStep, idleStep, idleStep, idleStep, idleStep, idleStep, idleStep, idleStep, idleStep,
    idleStep, idleStep, idleStep, idleStep, idleStep, idleStep⟩

theorem idlePipeline_quiet : ∀ step ∈ idlePipeline.all, LeavesMounts step := by
  have hidle : LeavesMounts idleStep :=
    fun phase state => by cases phase <;> exact ⟨rfl, fun _ h => h⟩
  intro step hstep
  have hall : idlePipeline.all = List.replicate 24 idleStep := rfl
  rw [hall, List.mem_replicate] at hstep
  exact hstep.2 ▸ hidle

theorem workingHost_steady (espFails : Bool) : Steady (workingHost espFails) ["target"] where
  undoes op n h := by cases op <;> first | rfl | simp [TargetOperation.undoes] at h
  mounts op n message _ := by
    unfold workingHost
    dsimp only
    split
    · cases espFails <;> simp
    · simp

def freshState : StepState Unit (TargetValues Unit) where
  plan := erasingPlan
  values := {
    held := .initial [[], ["dev"], ["dev", "pts"]]
    files := fun file => if file = .resolver then .symlink "../run/resolv.conf" else .absent
    partitionDevices := some [("efi-system", "/dev/vda1"), ("root", "/dev/vda3")]
    issued := 0
    rest := () }

def plainSteps (espFails : Bool) : List (InstallStep Unit (TargetValues Unit)) :=
  buildSteps (fun _ => true) (workingHost espFails) ["target"] idlePipeline erasingPlan

theorem apart_plain : Apart ["target"] [[], ["dev"], ["dev", "pts"]] := by
  unfold Apart
  decide

theorem failed_installation_unmounts_esp :
    (run (plainSteps true) (.fresh .release freshState)).1.succeeded = false ∧
      (run (plainSteps true) (.fresh .release freshState)).2.state.values.held.mounts =
        [[], ["dev"], ["dev", "pts"]] := by
  have hfailed : (run (plainSteps true) (.fresh .release freshState)).1.succeeded = false := by
    decide +kernel
  refine ⟨hfailed, ?_⟩
  unfold plainSteps at hfailed ⊢
  exact failed_installation_unmounts apart_plain idlePipeline_quiet (workingHost_steady true)
    .release freshState rfl hfailed

end Pipelines

end Installer
