import Mathlib.Data.List.AList
import Mathlib.Tactic

/-!
# The public build status

`build-status.json` and its four updates: an attempt is queued, its build starts, it
finishes, and the ones that an earlier run left unfinished are resolved. There is one
record for each entry and base.
-/

namespace BuildTools.BuildStatus

inductive State where
  | queued
  | testing
  | success
  | failed
  | skipped
  deriving DecidableEq

/-- The statuses that `build_one` returns. -/
inductive Status where
  | success
  | skipped
  | failed
  | error
  | timeout
  | invalid
  | host
  | buildFailed
  | smokeFailed
  deriving DecidableEq

def mapState : Status → State
  | .success => .success
  | .skipped => .skipped
  | _ => .failed

/-- An error line: what `error_summary` makes of a result, or the fixed text of an
interrupted attempt. -/
inductive ErrorLine where
  | summary (text : String)
  | interrupted
  deriving DecidableEq

def interruptedError : String :=
  "the previous run was interrupted before this entry finished testing"

def ErrorLine.text : ErrorLine → String
  | .summary text => text
  | .interrupted => interruptedError

def historyLimit : ℕ := 10

structure HistoryEntry where
  date : String
  state : State
  engine : Option String
  suite : Option String
  duration : Option ℕ
  stage : Option String
  error : Option ErrorLine
  deriving DecidableEq

structure BaseRecord where
  state : State
  date : String
  since : Option String
  engine : Option String
  suite : Option String
  size : Option ℕ
  checksum : Option String
  bootPassed : Option Bool
  error : Option ErrorLine
  history : List HistoryEntry
  deriving DecidableEq

structure Iso where
  size : ℕ
  sha256 : String
  deriving DecidableEq

/-- What `build_one` returns of an attempt, with the line that `error_summary` makes of its
log; the duration is in tenths of a second. -/
structure Result where
  base : Option String
  suite : Option String
  engine : String
  start : String
  «end» : Option String
  duration : Option ℕ
  status : Status
  stage : Option String
  summary : Option String
  iso : Option Iso
  smoke : Option String
  deriving DecidableEq

/-- An entry and a base. -/
abbrev Key := String × String

abbrev StatusFile := AList fun _ : Key => BaseRecord

/-- The record with its live state moved; a new one starts empty. -/
def BaseRecord.live (now : String) (state : State) : Option BaseRecord → BaseRecord
  | some record =>
    { record with
      state := state
      date := now
      since := some (record.since.getD now) }
  | none => ⟨state, now, some now, none, none, none, none, none, none, []⟩

/-- `mark_queued` and `mark_testing`: the file, and whether the live state moved. -/
def mark (now : String) (state : State) (file : StatusFile) (key : Key) : StatusFile × Bool :=
  (file.insert key (.live now state (file.lookup key)),
    (file.lookup key).map BaseRecord.state ≠ some state)

def markQueued (now : String) : StatusFile → Key → StatusFile × Bool :=
  mark now .queued

def markTesting (now : String) : StatusFile → Key → StatusFile × Bool :=
  mark now .testing

def bounded (history : List HistoryEntry) : List HistoryEntry :=
  history.drop (history.length - historyLimit)

def Result.date (now : String) (result : Result) : String :=
  match result.end with
  | some «end» => if «end» ≠ "" then «end» else if result.start ≠ "" then result.start else now
  | none => if result.start ≠ "" then result.start else now

def Result.error (result : Result) : Option ErrorLine :=
  if mapState result.status = .failed ∨ mapState result.status = .skipped then
    result.summary.map .summary
  else none

def Result.bootPassed (result : Result) : Option Bool :=
  match result.smoke with
  | some smoke => if smoke = "passed" ∨ smoke = "failed" then some (smoke = "passed") else none
  | none => none

def Result.history (now : String) (result : Result) : HistoryEntry :=
  ⟨result.date now, mapState result.status, some result.engine, result.suite, result.duration,
    result.stage, result.error⟩

/-- The state of the last attempt on record. -/
def finalState (previous : Option BaseRecord) : Option State :=
  (previous.bind fun record => record.history.getLast?).map HistoryEntry.state

def Result.record (now : String) (result : Result) (previous : Option BaseRecord) : BaseRecord where
  state := mapState result.status
  date := result.date now
  since :=
    if finalState previous = some (mapState result.status) then
      some ((previous.bind BaseRecord.since).getD (result.date now))
    else some (result.date now)
  engine := some result.engine
  suite := result.suite
  size := result.iso.map Iso.size
  checksum := result.iso.map Iso.sha256
  bootPassed := result.bootPassed
  error := result.error
  history := bounded ((previous.map BaseRecord.history).getD [] ++ [result.history now])

def applyResult (now : String) (file : StatusFile) (key : Key) (result : Result) :
    StatusFile × Bool :=
  (file.insert key (result.record now (file.lookup key)),
    finalState (file.lookup key) ≠ some (mapState result.status))

/-- A record that an earlier run left in `testing` becomes a failure. -/
def BaseRecord.resolved (now : String) (record : BaseRecord) : BaseRecord :=
  if record.state = .testing then
    { record with
      state := .failed
      date := now
      since := some now
      error := some .interrupted
      history := bounded (record.history ++
        [⟨now, .failed, record.engine, record.suite, none, none, some .interrupted⟩]) }
  else record

def mapRecords (f : BaseRecord → BaseRecord) (file : StatusFile) : StatusFile :=
  ⟨file.entries.map fun entry => ⟨entry.1, f entry.2⟩, by
    have hkeys := file.nodupKeys
    unfold List.NodupKeys List.keys at hkeys ⊢
    rwa [List.map_map]⟩

/-- The resolved file, and the keys that it touched. -/
def resolveStuckTesting (now : String) (file : StatusFile) : StatusFile × List Key :=
  (mapRecords (.resolved now) file,
    (file.entries.filter fun entry => entry.2.state = .testing).map Sigma.fst)

/-! ## What the updates do -/

section Updates

variable {now : String} {file : StatusFile} {key other : Key}

theorem lookup_mapRecords (f : BaseRecord → BaseRecord) :
    (mapRecords f file).lookup key = (file.lookup key).map f := by
  ext record
  rw [← Option.mem_def, AList.mem_lookup_iff, Option.map_eq_some_iff]
  constructor
  · intro hmem
    obtain ⟨⟨key', old⟩, hold, heq⟩ := List.mem_map.mp hmem
    cases heq
    exact ⟨old, AList.mem_lookup_iff.mpr hold, rfl⟩
  · rintro ⟨old, hold, rfl⟩
    exact List.mem_map.mpr ⟨⟨key, old⟩, AList.mem_lookup_iff.mp hold, rfl⟩

theorem resolved_state {record : BaseRecord} : (record.resolved now).state ≠ .testing := by
  unfold BaseRecord.resolved
  split
  · exact nofun
  · assumption

@[simp] theorem live_state {state : State} {previous : Option BaseRecord} :
    (BaseRecord.live now state previous).state = state := by
  cases previous <;> rfl

theorem mapState_final (status : Status) :
    mapState status ≠ .queued ∧ mapState status ≠ .testing := by
  cases status <;> exact ⟨nofun, nofun⟩

theorem mapState_success {status : Status} : mapState status = .success ↔ status = .success := by
  cases status <;> simp [mapState]

end Updates

end BuildTools.BuildStatus
