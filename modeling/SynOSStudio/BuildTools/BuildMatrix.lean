import SynOSStudio.BuildTools.JobLedger

/-!
# The build matrix

`main` of the build matrix after the planning: the placeholder records, the workers of
`run_targets_in_parallel` over the job queue, the callback `_on_result` with its three
writes under the state lock, and the exit code. A run that is killed leaves the files of
the state it was killed in.
-/

namespace BuildTools.BuildMatrix

inductive Kind where
  | catalog
  | core
  | saturation
  deriving DecidableEq

structure Target where
  id : String
  kind : Kind
  base : String
  suite : String
  source : String
  checksum : String
  profileId : String
  deriving DecidableEq

inductive Status where
  | pending
  | running
  | success
  | invalid
  | host
  | buildFailed
  | failed
  | timeout
  | error
  deriving DecidableEq

/-- What a finished target's record says. -/
def Status.Final (status : Status) : Prop :=
  status ≠ .pending ∧ status ≠ .running

instance (status : Status) : Decidable status.Final :=
  inferInstanceAs (Decidable (_ ∧ _))

structure Iso where
  path : String
  size : ℕ
  sha256 : String
  deriving DecidableEq

structure Smoke where
  status : String
  reason : Option String
  deriving DecidableEq

/-- A record with all its keys; the duration is in tenths of a second. -/
structure RunRecord extends Target where
  engine : String
  start : Option String
  «end» : Option String
  duration : Option ℕ
  exitCode : Option ℤ
  status : Status
  iso : Option Iso
  logPath : Option String
  logTail : List String
  smoke : Option Smoke
  deriving DecidableEq

/-- A record of the report: one with all its keys, or the job queue's crash record. -/
inductive Record where
  | full (record : RunRecord)
  | crash (id : String) (status : Status) (logTail : List String)
  deriving DecidableEq

namespace Record

def status : Record → Status
  | .full record => record.status
  | .crash _ status _ => status

def checksum : Record → Option String
  | .full record => some record.checksum
  | .crash _ _ _ => none

end Record

abbrev Report := String → Option Record

/-! ## One target -/

/-- How the build process of an attempt ended. -/
inductive Ending where
  | completed (returncode : ℤ)
  | timedOut
  | noCheckout (reason : String)
  | raised (exception : String)
  deriving DecidableEq

/-- What `run_one` observed of an attempt. -/
structure Attempt where
  engine : String
  start : String
  «end» : String
  duration : ℕ
  ending : Ending
  log : List String
  stderr : List String
  logPath : String
  iso : Option Iso
  smoke : Smoke
  deriving DecidableEq

def logTailLines : ℕ := 60

def tail (lines : List String) : List String :=
  lines.drop (lines.length - logTailLines)

def Ending.status : Ending → Status
  | .completed returncode =>
    if returncode = 0 then .success
    else if returncode = 1 then .invalid
    else if returncode = 2 then .host
    else if returncode = 3 then .buildFailed
    else .failed
  | .timedOut => .timeout
  | .noCheckout _ => .error
  | .raised _ => .error

def Attempt.logTail (attempt : Attempt) : List String :=
  match attempt.ending with
  | .completed returncode =>
    if returncode = 0 then []
    else if tail attempt.log = [] then tail attempt.stderr else tail attempt.log
  | .timedOut => tail attempt.log
  | .noCheckout reason => [s!"could not create a scratch checkout: {reason}"]
  | .raised exception => [exception]

/-- The image that the build's answer names; only a build that ended has one. -/
def Attempt.image (attempt : Attempt) : Option Iso :=
  match attempt.ending with
  | .completed _ => attempt.iso
  | _ => none

def runOne (runSmoke : Bool) (target : Target) (attempt : Attempt) : RunRecord where
  toTarget := target
  engine := attempt.engine
  start := some attempt.start
  «end» := some attempt.end
  duration := some attempt.duration
  exitCode := match attempt.ending with
    | .completed returncode => some returncode
    | _ => none
  status := attempt.ending.status
  iso := attempt.image
  logPath := some attempt.logPath
  logTail := attempt.logTail
  smoke :=
    if attempt.ending.status = .success ∧ runSmoke then
      match attempt.image with
      | some _ => some attempt.smoke
      | none => some ⟨"skipped", some "build succeeded but produced no ISO"⟩
    else none

theorem Ending.status_final (ending : Ending) : ending.status.Final := by
  cases ending with
  | completed returncode =>
    unfold Ending.status
    repeat' split
    all_goals decide
  | timedOut => exact ⟨nofun, nofun⟩
  | noCheckout _ => exact ⟨nofun, nofun⟩
  | raised _ => exact ⟨nofun, nofun⟩

/-- What the callback is given for a target. -/
def Record.ofResult (runSmoke : Bool) (target : Target) : JobResult String Attempt → Record
  | .returned attempt => .full (runOne runSmoke target attempt)
  -- the crash record's only status is "error"
  | .crashed id _ logTail => .crash id .error logTail

theorem Record.ofResult_final (runSmoke : Bool) (target : Target)
    (result : JobResult String Attempt) : (Record.ofResult runSmoke target result).status.Final := by
  cases result with
  | returned attempt => exact attempt.ending.status_final
  | crashed id status logTail => exact ⟨nofun, nofun⟩

/-! ## The status files -/

structure Entry where
  engine : String
  date : Option String
  result : Status
  duration : Option ℕ
  isoSha256 : Option String
  smoke : Option String
  deriving DecidableEq

abbrev StatusFile := String → Option Entry

def RunRecord.entry (record : RunRecord) : Entry where
  engine := record.engine
  date := if record.end.getD "" = "" then record.start else record.end
  result := record.status
  duration := record.duration
  isoSha256 := record.iso.map Iso.sha256
  smoke := record.smoke.map Smoke.status

/-- A missing key, as Python raises it. -/
structure KeyError where
  key : String
  deriving DecidableEq

/-- The entry of a target, or none where the loop goes on to the next target. -/
def statusEntry (report : Report) (target : Target) : Except KeyError (Option Entry) :=
  if target.kind = .catalog then
    match report target.id with
    | none => .ok none
    | some record =>
      if record.status = .running then .ok none
      else
        match record with
        | .full record => .ok (some record.entry)
        | .crash _ _ _ => .error ⟨"engine"⟩
  else .ok none

def StatusFile.insert (data : StatusFile) (target : Target) : Option Entry → StatusFile
  | some entry => Function.update data target.id (some entry)
  | none => data

/-- `build_status_data`. -/
def buildStatusData (targets : List Target) (report : Report) : Except KeyError StatusFile :=
  targets.foldlM
    (fun data target => (statusEntry report target).map fun entry => data.insert target entry)
    fun _ => none

/-- `{**existing, **data}`. -/
def merge (existing data : StatusFile) : StatusFile :=
  fun id => (data id).or (existing id)

/-! ## The run -/

def placeholder (engine : String) (target : Target) : RunRecord where
  toTarget := target
  engine := engine
  start := none
  «end» := none
  duration := none
  exitCode := none
  status := .pending
  iso := none
  logPath := none
  logTail := []
  smoke := none

/-- The arguments of `main`, the planned targets, and the report of the run before. -/
structure Plan where
  targets : List Target
  previous : Report
  resume : Bool
  runSmoke : Bool
  updateCatalogStatusFile : Bool
  engine : String

namespace Plan

variable (plan : Plan)

/-- `--resume` skips a target whose last record is a success at its checksum. -/
def upToDate (report : Report) (target : Target) : Bool :=
  match report target.id with
  | some record => record.status = .success ∧ record.checksum = some target.checksum
  | none => false

def loadedReport : Report :=
  if plan.resume then plan.previous else fun _ => none

/-- `targets_to_run`. -/
def toRun : List Target :=
  if plan.resume then plan.targets.filter fun target => !upToDate plan.loadedReport target
  else plan.targets

def withPlaceholder (report : Report) (target : Target) : Report :=
  Function.update report target.id (some (.full (placeholder plan.engine target)))

/-- The report that the run starts with. -/
def startReport : Report :=
  plan.toRun.foldl plan.withPlaceholder plan.loadedReport

end Plan

/-- What a worker does next while it holds the state lock in `_on_result`. -/
inductive Callback where
  | deriving
  | writingStatus (data : StatusFile)
  | merging
  | writingCatalog (merged : StatusFile)
  | leaving

/-- The report in memory, the three files, the worker that holds the state lock, and the
workers that an exception of the callback has ended. `finished` remembers the record that
each target finished with. -/
structure Run (jobs : ℕ) where
  pool : Pool Target String Attempt jobs
  report : Report
  reportFile : Report
  buildStatus : StatusFile
  catalogStatus : StatusFile
  callback : Option (Fin jobs × Callback)
  dead : Finset (Fin jobs)
  finished : Report

namespace Run

variable {jobs : ℕ} (plan : Plan)

def start (buildStatus catalogStatus : StatusFile) : Run jobs where
  pool := .start plan.toRun
  report := plan.startReport
  reportFile := plan.startReport
  buildStatus := buildStatus
  catalogStatus := catalogStatus
  callback := none
  dead := ∅
  finished _ := none

/-- The callback takes the lock, and its record goes into the report and its file. -/
def enter (m : Run jobs) (w : Fin jobs) (target : Target) (result : JobResult String Attempt) :
    Run jobs :=
  let record := Record.ofResult plan.runSmoke target result
  { m with
    report := Function.update m.report target.id (some record)
    reportFile := Function.update m.report target.id (some record)
    callback := some (w, .deriving)
    finished := Function.update m.finished target.id (some record) }

/-- A step of the run. The status files are truncated first and written after that. -/
inductive Step (m : Run jobs) : Run jobs → Prop where
  | work (pool : Pool Target String Attempt jobs) (h : Pool.Step Target.id m.pool pool)
      (hcallback : ∀ w target result, m.pool.workers w = .notifying target result →
        pool.workers w = .notifying target result) :
      Step m { m with pool := pool }
  | enter (w : Fin jobs) (target : Target) (result : JobResult String Attempt)
      (h : m.pool.workers w = .notifying target result) (hlock : m.callback = none)
      (halive : w ∉ m.dead) : Step m (m.enter plan w target result)
  | derive (w : Fin jobs) (data : StatusFile) (h : m.callback = some (w, .deriving))
      (hdata : buildStatusData plan.targets m.report = .ok data) :
      Step m { m with
        buildStatus := fun _ => none
        callback := some (w, .writingStatus data) }
  | writeStatus (w : Fin jobs) (data : StatusFile)
      (h : m.callback = some (w, .writingStatus data)) :
      Step m { m with
        buildStatus := data
        callback := some (w, if plan.updateCatalogStatusFile then .merging else .leaving) }
  | merge (w : Fin jobs) (data : StatusFile) (h : m.callback = some (w, .merging))
      (hdata : buildStatusData plan.targets m.report = .ok data) :
      Step m { m with
        catalogStatus := fun _ => none
        callback := some (w, .writingCatalog (BuildMatrix.merge m.catalogStatus data)) }
  | writeCatalog (w : Fin jobs) (merged : StatusFile)
      (h : m.callback = some (w, .writingCatalog merged)) :
      Step m { m with catalogStatus := merged, callback := some (w, .leaving) }
  -- the exception leaves `with _STATE_LOCK` and the worker's loop
  | raise (w : Fin jobs) (callback : Callback) (error : KeyError)
      (h : m.callback = some (w, callback)) (hderives : callback = .deriving ∨ callback = .merging)
      (hdata : buildStatusData plan.targets m.report = .error error) :
      Step m { m with callback := none, dead := insert w m.dead }
  | leave (w : Fin jobs) (target : Target) (result : JobResult String Attempt)
      (h : m.callback = some (w, .leaving)) (hw : m.pool.workers w = .notifying target result) :
      Step m { m with callback := none, pool := m.pool.place w .taking m.pool.queue }

/-- `run_targets_in_parallel` has returned, or nothing was to run. -/
def Ended (m : Run jobs) : Prop :=
  plan.toRun = [] ∨ ∀ w, m.pool.workers w = .returned ∨ w ∈ m.dead

/-- The ids of the targets that did not succeed. -/
def failed (m : Run jobs) : List String :=
  (plan.toRun.filter fun target =>
    match m.report target.id with
    | some record => record.status ≠ .success ∧ record.status ≠ .pending
    | none => false).map Target.id

def exitCode (m : Run jobs) : ℕ :=
  if m.failed plan = [] then 0 else 1

end Run

end BuildTools.BuildMatrix
