import Mathlib.Logic.Relation
import SynOSStudio.BuildTools.BuildStatus

/-!
# Conformance runs over the public build status

`run_build` as the sequence of its `StatusUpdater` calls, by any number of workers, over the
life of the file: one run after another, each of them killed between any two calls or not.
`build_one` never raises, so every build that is not killed ends in a result.
-/

namespace BuildTools.BuildStatus

/-- One attempt of the plan. -/
structure EntryRef where
  entryId : String
  baseOverride : Option String
  deriving DecidableEq

/-- `cover_bases or [None]`. -/
def baseVariants : Option (List String) → List (Option String)
  | some (base :: bases) => (base :: bases).map some
  | _ => [none]

def planned (selected : List String) (coverBases : Option (List String)) : List EntryRef :=
  selected.flatMap fun entryId => (baseVariants coverBases).map (EntryRef.mk entryId)

/-- `text or otherwise`. -/
def nonempty (text : Option String) (otherwise : String) : String :=
  match text with
  | some text => if text = "" then otherwise else text
  | none => otherwise

def intendedBase (catalogDefault : Option String) (ref : EntryRef) : String :=
  nonempty ref.baseOverride (nonempty catalogDefault "unknown")

/-- A build in progress, with the base that its result will have. -/
structure Build where
  ref : EntryRef
  base : Option String
  deriving DecidableEq

/-- A result has no base when the manifest was not read, else the override or, without one,
what the manifest pins. -/
def Build.Valid (build : Build) : Prop :=
  ∀ base, build.ref.baseOverride = some base → base ≠ "" →
    build.base = none ∨ build.base = some base

/-- The key under which an attempt is queued and tested. -/
def EntryRef.key (catalogDefault : Option String) (ref : EntryRef) : Key :=
  (ref.entryId, intendedBase catalogDefault ref)

/-- The key that the build is about. -/
def Build.key (catalogDefault : Option String) (build : Build) : Key :=
  (build.ref.entryId, nonempty build.base (intendedBase catalogDefault build.ref))

/-- A run in progress. -/
structure Run where
  jobs : ℕ
  catalogDefault : Option String
  resolved : Bool
  toQueue : List EntryRef
  toStart : List EntryRef
  building : List Build

/-- The run has made all of its calls. -/
structure Run.Done (run : Run) : Prop where
  resolved : run.resolved = true
  toQueue : run.toQueue = []
  toStart : run.toStart = []
  building : run.building = []

/-- The file and the run over it, with the builds that were in progress when a run was
killed and the status of the last finished attempt on each key. -/
structure Life where
  file : StatusFile
  run : Option Run
  interrupted : List Key
  finished : Key → Option Status

def Life.start : Life :=
  ⟨∅, none, [], fun _ => none⟩

/-- The calls of `StatusUpdater`, and how a run begins and ends. A worker starts any of the
attempts that wait: the order of the plan and of the workers is left open. -/
inductive Step (life : Life) : Life → Prop where
  | begin (selected : List String) (coverBases : Option (List String)) (refs : List EntryRef)
      (catalogDefault : Option String) (jobs : ℕ) (h : life.run = none)
      (hplan : refs.Perm (planned selected coverBases)) :
      Step life { life with run := some ⟨jobs, catalogDefault, false, refs, refs, []⟩ }
  | resolveInterrupted (run : Run) (now : String) (h : life.run = some run)
      (hresolved : run.resolved = false) :
      Step life { life with
        file := (resolveStuckTesting now life.file).1
        run := some { run with resolved := true } }
  | queue (run : Run) (now : String) (ref : EntryRef) (rest : List EntryRef)
      (h : life.run = some run) (hresolved : run.resolved = true)
      (hqueue : run.toQueue = ref :: rest) :
      Step life { life with
        file := (markQueued now life.file (ref.key run.catalogDefault)).1
        run := some { run with toQueue := rest } }
  | start (run : Run) (now : String) (build : Build) (h : life.run = some run)
      (hresolved : run.resolved = true) (hqueue : run.toQueue = [])
      (hstart : build.ref ∈ run.toStart) (hjobs : run.building.length < max run.jobs 1)
      (hvalid : build.Valid) :
      Step life { life with
        file := (markTesting now life.file (build.ref.key run.catalogDefault)).1
        run := some { run with
          toStart := run.toStart.erase build.ref
          building := build :: run.building } }
  | record (run : Run) (now : String) (build : Build) (result : Result)
      (h : life.run = some run) (hbuild : build ∈ run.building) (hbase : result.base = build.base) :
      Step life { life with
        file := (applyResult now life.file (build.key run.catalogDefault) result).1
        run := some { run with building := run.building.erase build }
        finished :=
          Function.update life.finished (build.key run.catalogDefault) (some result.status) }
  | finish (run : Run) (h : life.run = some run) (hdone : run.Done) :
      Step life { life with run := none }
  | kill (run : Run) (h : life.run = some run) :
      Step life { life with
        run := none
        interrupted := life.interrupted ++ run.building.map (Build.key run.catalogDefault) }

def stateOf (file : StatusFile) (key : Key) : Option State :=
  (file.lookup key).map BaseRecord.state

/-- The file reports nothing that nobody observed. -/
structure Honest (life : Life) : Prop where
  settled : ∀ run, life.run = some run → run.Done → ∀ key,
    stateOf life.file key ≠ some .queued ∧ stateOf life.file key ≠ some .testing
  interrupted : ∀ key record, life.file.lookup key = some record →
    record.error = some .interrupted → key ∈ life.interrupted
  success : ∀ key, stateOf life.file key = some .success → life.finished key = some .success

/-- What a run finds queued is in its plan, and each build is on the base that it was queued
under. -/
structure GuessedStep (life life' : Life) : Prop where
  step : Step life life'
  queued : ∀ run, life.run = none → life'.run = some run → ∀ key,
    stateOf life.file key = some .queued → ∃ ref ∈ run.toQueue, ref.key run.catalogDefault = key
  base : ∀ run run' build, life.run = some run → life'.run = some run' →
    run'.building = build :: run.building →
      build.key run.catalogDefault = build.ref.key run.catalogDefault

/-! ## One call -/

section Calls

variable {now : String} {file : StatusFile} {key other : Key}

theorem stateOf_insert_self (record : BaseRecord) :
    stateOf (file.insert key record) key = some record.state := by
  simp [stateOf]

theorem stateOf_insert_ne {record : BaseRecord} (h : other ≠ key) :
    stateOf (file.insert key record) other = stateOf file other := by
  simp [stateOf, AList.lookup_insert_ne h]

theorem stateOf_mark (state : State) :
    stateOf (mark now state file key).1 other =
      if other = key then some state else stateOf file other := by
  by_cases h : other = key
  · subst h
    rw [if_pos rfl]
    exact (stateOf_insert_self _).trans (congrArg some live_state)
  · rw [if_neg h]
    exact stateOf_insert_ne h

theorem stateOf_applyResult (result : Result) :
    stateOf (applyResult now file key result).1 other =
      if other = key then some (mapState result.status) else stateOf file other := by
  by_cases h : other = key
  · subst h
    rw [if_pos rfl]
    exact stateOf_insert_self _
  · rw [if_neg h]
    exact stateOf_insert_ne h

theorem stateOf_resolved (state : State) (hstate : state ≠ .failed)
    (h : stateOf (resolveStuckTesting now file).1 key = some state) :
    stateOf file key = some state ∧ state ≠ .testing := by
  unfold stateOf at h ⊢
  rw [show (resolveStuckTesting now file).1 = mapRecords (.resolved now) file from rfl,
    lookup_mapRecords, Option.map_map] at h
  obtain ⟨record, hrecord, hresolved⟩ := Option.map_eq_some_iff.mp h
  have hnot : state ≠ .testing := by
    rintro rfl
    exact resolved_state hresolved
  refine ⟨?_, hnot⟩
  rw [hrecord]
  simp only [Function.comp_apply, BaseRecord.resolved] at hresolved
  split at hresolved
  · exact absurd hresolved.symm hstate
  · exact congrArg some hresolved

/-- Where an update writes the fixed text of an interrupted attempt. -/
theorem interrupted_insert {record old : BaseRecord}
    (hrecord : record.error = some .interrupted →
      ∃ before, file.lookup key = some before ∧ before.error = some .interrupted)
    (h : (file.insert key record).lookup other = some old)
    (herror : old.error = some .interrupted) :
    ∃ before, file.lookup other = some before ∧ before.error = some .interrupted := by
  by_cases hkey : other = key
  · subst hkey
    rw [AList.lookup_insert] at h
    cases h
    exact hrecord herror
  · rw [AList.lookup_insert_ne hkey] at h
    exact ⟨old, h, herror⟩

theorem live_error {state : State}
    (h : (BaseRecord.live now state (file.lookup key)).error = some .interrupted) :
    ∃ before, file.lookup key = some before ∧ before.error = some .interrupted := by
  cases hbefore : file.lookup key with
  | none =>
    rw [hbefore] at h
    cases h
  | some before =>
    rw [hbefore] at h
    exact ⟨before, rfl, h⟩

theorem result_error {result : Result} {previous : Option BaseRecord} :
    (result.record now previous).error ≠ some .interrupted := by
  show result.error ≠ _
  unfold Result.error
  split
  · cases result.summary <;> simp
  · exact nofun

theorem resolved_error {record : BaseRecord}
    (h : (resolveStuckTesting now file).1.lookup key = some record)
    (herror : record.error = some .interrupted) :
    ∃ before, file.lookup key = some before ∧
      (before.error = some .interrupted ∨ before.state = .testing) := by
  rw [show (resolveStuckTesting now file).1 = mapRecords (.resolved now) file from rfl,
    lookup_mapRecords] at h
  obtain ⟨before, hbefore, rfl⟩ := Option.map_eq_some_iff.mp h
  refine ⟨before, hbefore, ?_⟩
  by_cases hstate : before.state = .testing
  · exact Or.inr hstate
  · simp only [BaseRecord.resolved, if_neg hstate] at herror
    exact Or.inl herror

end Calls

/-! ## The runs -/

/-- Live states before the run resolves what it finds. -/
structure Found (life : Life) (run : Run) : Prop where
  testing : ∀ key, stateOf life.file key = some .testing → key ∈ life.interrupted
  queued : ∀ key, stateOf life.file key = some .queued →
    ∃ ref ∈ run.toStart, ref.key run.catalogDefault = key
  toQueue : run.toQueue = run.toStart
  building : run.building = []

/-- Live states of a run that has begun its attempts. -/
structure Underway (life : Life) (run : Run) : Prop where
  testing : ∀ key, stateOf life.file key = some .testing →
    ∃ build ∈ run.building, build.key run.catalogDefault = key
  queued : ∀ key, stateOf life.file key = some .queued →
    ∃ ref ∈ run.toStart, ref.key run.catalogDefault = key
  toQueue : ∀ ref ∈ run.toQueue, ref ∈ run.toStart

/-- The live states between two calls. -/
def LiveStates (life : Life) : Option Run → Prop
  | none => ∀ key, stateOf life.file key = some .testing → key ∈ life.interrupted
  | some run => if run.resolved then Underway life run else Found life run

/-- The invariant of the life of the file. -/
structure Balanced (life : Life) : Prop where
  live : LiveStates life life.run
  interrupted : ∀ key record, life.file.lookup key = some record →
    record.error = some .interrupted → key ∈ life.interrupted
  success : ∀ key, stateOf life.file key = some .success → life.finished key = some .success

section Runs

variable {life life' : Life} {run : Run} {now : String}

theorem Balanced.found (h : Balanced life) (hrun : life.run = some run)
    (hresolved : run.resolved = false) : Found life run := by
  have hlive := h.live
  rw [hrun] at hlive
  simpa [LiveStates, hresolved] using hlive

theorem Balanced.underway (h : Balanced life) (hrun : life.run = some run)
    (hresolved : run.resolved = true) : Underway life run := by
  have hlive := h.live
  rw [hrun] at hlive
  simpa [LiveStates, hresolved] using hlive

/-- A mark of a live state neither interrupts nor finishes an attempt. -/
theorem Balanced.mark (h : Balanced life) (state : State) (hstate : state ≠ .success) (key : Key)
    (run' : Run) (hresolved : run'.resolved = true)
    (hlive : Underway { life with
      file := (mark now state life.file key).1
      run := some run' } run') :
    Balanced { life with file := (mark now state life.file key).1, run := some run' } := by
  refine ⟨?_, fun other record hrecord herror => ?_, fun other hother => ?_⟩
  · show if run'.resolved then _ else _
    rw [if_pos hresolved]
    exact hlive
  · obtain ⟨before, hbefore, herror'⟩ :=
      interrupted_insert (fun herror => live_error herror) hrecord herror
    exact h.interrupted other before hbefore herror'
  · have hstates := (stateOf_mark state).symm.trans hother
    split at hstates
    · exact absurd (Option.some.inj hstates) hstate
    · exact h.success other hstates

theorem Balanced.queue (h : Balanced life) (hrun : life.run = some run) {ref : EntryRef}
    {rest : List EntryRef} (hresolved : run.resolved = true)
    (hqueue : run.toQueue = ref :: rest) :
    Balanced { life with
      file := (markQueued now life.file (ref.key run.catalogDefault)).1
      run := some { run with toQueue := rest } } := by
  have hlive := h.underway hrun hresolved
  have hmem : ref ∈ run.toStart := hlive.toQueue ref (hqueue ▸ List.mem_cons_self)
  refine h.mark .queued nofun _ { run with toQueue := rest } hresolved
    ⟨fun key hkey => ?_, fun key hkey => ?_, fun other hother => ?_⟩
  · have hstates := (stateOf_mark .queued).symm.trans hkey
    split at hstates
    · cases hstates
    · exact hlive.testing key hstates
  · have hstates := (stateOf_mark .queued).symm.trans hkey
    split at hstates
    · rename_i heq
      exact ⟨ref, hmem, heq.symm⟩
    · exact hlive.queued key hstates
  · exact hlive.toQueue other (hqueue ▸ List.mem_cons_of_mem ref hother)

theorem Balanced.startBuild (h : Balanced life) (hrun : life.run = some run) {build : Build}
    (hresolved : run.resolved = true) (hqueue : run.toQueue = [])
    (hguess : build.key run.catalogDefault = build.ref.key run.catalogDefault) :
    Balanced { life with
      file := (markTesting now life.file (build.ref.key run.catalogDefault)).1
      run := some { run with
        toStart := run.toStart.erase build.ref
        building := build :: run.building } } := by
  have hlive := h.underway hrun hresolved
  refine h.mark .testing nofun _ _ hresolved
    ⟨fun key hkey => ?_, fun key hkey => ?_, fun other hother => ?_⟩
  · have hstates := (stateOf_mark .testing).symm.trans hkey
    split at hstates
    · rename_i heq
      exact ⟨build, List.mem_cons_self, hguess.trans heq.symm⟩
    · obtain ⟨other, hother, hkey'⟩ := hlive.testing key hstates
      exact ⟨other, List.mem_cons_of_mem build hother, hkey'⟩
  · have hstates := (stateOf_mark .testing).symm.trans hkey
    split at hstates
    · cases hstates
    · rename_i hne
      obtain ⟨ref, href, hkey'⟩ := hlive.queued key hstates
      have hother : ref ≠ build.ref := by
        rintro rfl
        exact hne hkey'.symm
      exact ⟨ref, (List.mem_erase_of_ne hother).mpr href, hkey'⟩
  · have hnone : other ∈ run.toQueue := hother
    rw [hqueue] at hnone
    cases hnone

theorem Balanced.record (h : Balanced life) (hrun : life.run = some run) {build : Build}
    (hbuild : build ∈ run.building) (result : Result) :
    Balanced { life with
      file := (applyResult now life.file (build.key run.catalogDefault) result).1
      run := some { run with building := run.building.erase build }
      finished :=
        Function.update life.finished (build.key run.catalogDefault) (some result.status) } := by
  have hresolved : run.resolved = true := by
    by_contra hnot
    have hfound := h.found hrun (Bool.eq_false_iff.mpr hnot)
    rw [hfound.building] at hbuild
    cases hbuild
  have hlive := h.underway hrun hresolved
  have hfinal := mapState_final result.status
  refine ⟨?_, fun other record hrecord herror => ?_, fun other hother => ?_⟩
  · show if run.resolved then _ else _
    rw [if_pos hresolved]
    refine ⟨fun key hkey => ?_, fun key hkey => ?_, hlive.toQueue⟩
    · have hstates := (stateOf_applyResult result).symm.trans hkey
      split at hstates
      · exact absurd (Option.some.inj hstates) hfinal.2
      · rename_i hne
        obtain ⟨other, hother, hkey'⟩ := hlive.testing key hstates
        have hdistinct : other ≠ build := by
          rintro rfl
          exact hne hkey'.symm
        exact ⟨other, (List.mem_erase_of_ne hdistinct).mpr hother, hkey'⟩
    · have hstates := (stateOf_applyResult result).symm.trans hkey
      split at hstates
      · exact absurd (Option.some.inj hstates) hfinal.1
      · exact hlive.queued key hstates
  · obtain ⟨before, hbefore, herror'⟩ :=
      interrupted_insert (fun herror => absurd herror result_error) hrecord herror
    exact h.interrupted other before hbefore herror'
  · have hstates := (stateOf_applyResult result).symm.trans hother
    show Function.update life.finished _ _ other = _
    split at hstates
    · rename_i heq
      rw [heq, Function.update_self, mapState_success.mp (Option.some.inj hstates)]
    · rename_i hne
      rw [Function.update_of_ne hne]
      exact h.success other hstates

theorem Balanced.resolve (h : Balanced life) (hrun : life.run = some run)
    (hresolved : run.resolved = false) :
    Balanced { life with
      file := (resolveStuckTesting now life.file).1
      run := some { run with resolved := true } } := by
  have hfound := h.found hrun hresolved
  refine ⟨⟨fun key hkey => ?_, fun key hkey => ?_, fun ref href => ?_⟩,
    fun key record hrecord herror => ?_, fun key hkey => ?_⟩
  · exact absurd rfl (stateOf_resolved .testing nofun hkey).2
  · exact hfound.queued key (stateOf_resolved .queued nofun hkey).1
  · exact hfound.toQueue ▸ href
  · obtain ⟨before, hbefore, herror' | hstate⟩ := resolved_error hrecord herror
    · exact h.interrupted key before hbefore herror'
    · exact hfound.testing key (by rw [stateOf, hbefore, Option.map_some, hstate])
  · exact h.success key (stateOf_resolved .success nofun hkey).1

theorem Balanced.step (h : Balanced life) (hstep : GuessedStep life life') : Balanced life' := by
  obtain ⟨hstep, hqueued, hbase⟩ := hstep
  cases hstep with
  | begin selected coverBases refs catalogDefault jobs hrun hplan =>
    have hlive := h.live
    rw [hrun] at hlive
    exact ⟨⟨hlive, hqueued _ hrun rfl, rfl, rfl⟩, h.interrupted, h.success⟩
  | resolveInterrupted run now hrun hresolved => exact h.resolve hrun hresolved
  | queue run now ref rest hrun hresolved hqueue => exact h.queue hrun hresolved hqueue
  | start run now build hrun hresolved hqueue hstart hjobs hvalid =>
    exact h.startBuild hrun hresolved hqueue (hbase run _ build hrun rfl rfl)
  | record run now build result hrun hbuild hresult => exact h.record hrun hbuild result
  | finish run hrun hdone =>
    have hlive := h.underway hrun hdone.resolved
    refine ⟨fun key hkey => ?_, h.interrupted, h.success⟩
    obtain ⟨build, hbuild, -⟩ := hlive.testing key hkey
    rw [hdone.building] at hbuild
    cases hbuild
  | kill run hrun =>
    refine ⟨fun key hkey => ?_, fun key record hrecord herror =>
      List.mem_append_left _ (h.interrupted key record hrecord herror), h.success⟩
    cases hresolved : run.resolved with
    | false => exact List.mem_append_left _ ((h.found hrun hresolved).testing key hkey)
    | true =>
      obtain ⟨build, hbuild, hkey'⟩ := (h.underway hrun hresolved).testing key hkey
      exact List.mem_append_right _ (List.mem_map.mpr ⟨build, hbuild, hkey'⟩)

theorem Balanced.honest (h : Balanced life) : Honest life := by
  refine ⟨fun run hrun hdone key => ?_, h.interrupted, h.success⟩
  have hlive := h.underway hrun hdone.resolved
  constructor
  · intro hkey
    obtain ⟨ref, href, -⟩ := hlive.queued key hkey
    rw [hdone.toStart] at href
    cases href
  · intro hkey
    obtain ⟨build, hbuild, -⟩ := hlive.testing key hkey
    rw [hdone.building] at hbuild
    cases hbuild

/-- A file that every run finds and leaves as guessed is honest throughout its life. -/
theorem build_status_stays_honest
    (h : Relation.ReflTransGen GuessedStep .start life) : Honest life := by
  have hbalanced : Balanced life := by
    induction h with
    | refl => exact ⟨nofun, nofun, nofun⟩
    | tail _ hstep ih => exact ih.step hstep
  exact hbalanced.honest

end Runs

/-! ## One attempt -/

/-- A call that starts no build. -/
theorem GuessedStep.quiet {life life' : Life} {run run' : Run} (h : Step life life')
    (hrun : life.run = some run) (hrun' : life'.run = some run')
    (hbuilding : run'.building.length ≤ run.building.length) : GuessedStep life life' := by
  refine ⟨h, fun run₀ hnone _ _ _ => ?_, fun run₁ run₂ build h₁ h₂ heq => ?_⟩
  · cases hnone.symm.trans hrun
  · cases hrun.symm.trans h₁
    cases hrun'.symm.trans h₂
    rw [heq, List.length_cons] at hbuilding
    omega

/-- A call that starts a build on the base that it was queued under. -/
theorem GuessedStep.started {life life' : Life} {run run' : Run} {build : Build}
    (h : Step life life') (hrun : life.run = some run)
    (hrun' : life'.run = some run') (hbuilding : run'.building = build :: run.building)
    (hbase : build.key run.catalogDefault = build.ref.key run.catalogDefault) :
    GuessedStep life life' := by
  refine ⟨h, fun run₀ hnone _ _ _ => ?_, fun run₁ run₂ other h₁ h₂ heq => ?_⟩
  · cases hnone.symm.trans hrun
  · cases hrun.symm.trans h₁
    cases hrun'.symm.trans h₂
    cases hbuilding.symm.trans heq
    exact hbase

/-- A life of one run, with no attempt finished yet. -/
def firstRun (file : StatusFile) (run : Run) : Life :=
  ⟨file, some run, [], fun _ => none⟩

section OneAttempt

variable (now : String) (ref : EntryRef) (catalogDefault : Option String)

/-- The one attempt of a run waits for its build. -/
theorem one_attempt_waits (hplain : ref.baseOverride = none) :
    Relation.ReflTransGen GuessedStep .start
      (firstRun (markQueued now ∅ (ref.key catalogDefault)).1
        ⟨1, catalogDefault, true, [], [ref], []⟩) := by
  obtain ⟨entryId, baseOverride⟩ := ref
  subst hplain
  have hbegin : GuessedStep .start
      (firstRun ∅ ⟨1, catalogDefault, false, [⟨entryId, none⟩], [⟨entryId, none⟩], []⟩) := by
    refine ⟨.begin [entryId] none _ catalogDefault 1 rfl (.refl _), fun _ _ _ key hkey => ?_, ?_⟩
    · exact absurd hkey nofun
    · intro run _ _ hrun
      exact absurd hrun nofun
  have hresolve : GuessedStep
      (firstRun ∅ ⟨1, catalogDefault, false, [⟨entryId, none⟩], [⟨entryId, none⟩], []⟩)
      (firstRun ∅ ⟨1, catalogDefault, true, [⟨entryId, none⟩], [⟨entryId, none⟩], []⟩) :=
    .quiet (.resolveInterrupted ⟨1, catalogDefault, false, [⟨entryId, none⟩], [⟨entryId, none⟩], []⟩
      now rfl rfl) rfl rfl le_rfl
  exact ((Relation.ReflTransGen.single hbegin).tail hresolve).tail
    (.quiet (.queue ⟨1, catalogDefault, true, [⟨entryId, none⟩], [⟨entryId, none⟩], []⟩ now
      ⟨entryId, none⟩ [] rfl rfl rfl) rfl rfl le_rfl)

/-- Its build starts. -/
theorem one_build_starts (build : Build) (hvalid : build.Valid) :
    Step
      (firstRun (markQueued now ∅ (build.ref.key catalogDefault)).1
        ⟨1, catalogDefault, true, [], [build.ref], []⟩)
      (firstRun (markTesting now (markQueued now ∅ (build.ref.key catalogDefault)).1
        (build.ref.key catalogDefault)).1 ⟨1, catalogDefault, true, [], [], [build]⟩) := by
  have hstart : Step
      (firstRun (markQueued now ∅ (build.ref.key catalogDefault)).1
        ⟨1, catalogDefault, true, [], [build.ref], []⟩)
      (firstRun (markTesting now (markQueued now ∅ (build.ref.key catalogDefault)).1
        (build.ref.key catalogDefault)).1
        ⟨1, catalogDefault, true, [], [build.ref].erase build.ref, [build]⟩) :=
    .start ⟨1, catalogDefault, true, [], [build.ref], []⟩ now build rfl rfl rfl List.mem_cons_self
      Nat.zero_lt_one hvalid
  rwa [List.erase_cons_head] at hstart

/-- Its result is recorded. -/
theorem one_build_finishes (file : StatusFile) (build : Build) (result : Result)
    (hbase : result.base = build.base) :
    Step (firstRun file ⟨1, catalogDefault, true, [], [], [build]⟩)
      ⟨(applyResult now file (build.key catalogDefault) result).1,
        some ⟨1, catalogDefault, true, [], [], []⟩, [],
        Function.update (fun _ => none) (build.key catalogDefault) (some result.status)⟩ := by
  have hrecord : Step (firstRun file ⟨1, catalogDefault, true, [], [], [build]⟩)
      ⟨(applyResult now file (build.key catalogDefault) result).1,
        some ⟨1, catalogDefault, true, [], [], [build].erase build⟩, [],
        Function.update (fun _ => none) (build.key catalogDefault) (some result.status)⟩ :=
    .record ⟨1, catalogDefault, true, [], [], [build]⟩ now build result rfl List.mem_cons_self hbase
  rwa [List.erase_cons_head] at hrecord

end OneAttempt

def builtOn (base : String) : Result :=
  ⟨some base, some "trixie", "1.4.0", "2026-10-01T02:00:05+00:00", some "2026-10-01T02:40:00+00:00",
    some 23950, .success, none, none, some ⟨2048, "c3ab"⟩, some "passed"⟩

/-- An entry whose manifest pins another base than the catalog's default stays in `testing`. -/
theorem guessed_base_stays_testing :
    ¬ ∀ life, Relation.ReflTransGen Step .start life → Honest life := by
  intro hclaim
  let build : Build := ⟨⟨"test-engine", none⟩, some "debian"⟩
  have hwaits := one_attempt_waits "2026-10-01T02:00:05+00:00" build.ref (some "ubuntu") rfl
  have hsteps : Relation.ReflTransGen Step .start _ :=
    Relation.ReflTransGen.mono (fun _ _ (h : GuessedStep _ _) => h.step) _ _ hwaits
  have hstarts := hsteps.tail
    (one_build_starts "2026-10-01T02:00:05+00:00" (some "ubuntu") build nofun)
  have hends := hstarts.tail (one_build_finishes "2026-10-01T02:40:00+00:00" (some "ubuntu") _ build
    (builtOn "debian") rfl)
  have hsettled := (hclaim _ hends).settled _ rfl ⟨rfl, rfl, rfl, rfl⟩ ("test-engine", "ubuntu")
  refine hsettled.2 ?_
  decide +kernel

/-- A run of one entry on the catalog's default base. -/
theorem build_status_stays_honest_for_one_entry : ∃ life,
    Honest life ∧ stateOf life.file ("git-server", "ubuntu") = some .success := by
  let build : Build := ⟨⟨"git-server", none⟩, some "ubuntu"⟩
  have hwaits := one_attempt_waits "2026-10-01T02:00:05+00:00" build.ref (some "ubuntu") rfl
  have hbase : build.key (some "ubuntu") = build.ref.key (some "ubuntu") := by decide +kernel
  have hstart := GuessedStep.started (one_build_starts "2026-10-01T02:00:05+00:00" (some "ubuntu")
    build nofun) rfl rfl rfl hbase
  have hend := (hwaits.tail hstart).tail (.quiet
    (one_build_finishes "2026-10-01T02:40:00+00:00" (some "ubuntu") _ build
      (builtOn "ubuntu") rfl) rfl rfl (Nat.zero_le 1))
  exact ⟨_, build_status_stays_honest hend, by decide +kernel⟩

end BuildTools.BuildStatus
