import SynOSStudio.BashGuess.World
import SynOSStudio.RecoveryEngine.MountLayout
import Mathlib.Order.Defs.LinearOrder

/-!
# The history of APT

A transaction is a block of fields, one in a line, and blocks are cut at empty lines. A block with a
damaged field becomes an issue. The date library is a parameter.
-/

namespace SnapshotsManager.AptHistory

open BashGuess (Text trim isControl utf8Length splitAround)
open SecurityKeys.Ssh (lines)
open RecoveryEngine.Layout (splitOnce)

inductive AptOperation
  | install | upgrade | downgrade | remove | purge | reinstall
  deriving DecidableEq

structure AptPackageChange where
  operation : AptOperation
  package : Text
  oldVersion : Option Text
  newVersion : Option Text
  automatic : Bool
  deriving DecidableEq

structure AptTransaction (Date : Type) where
  start : Date
  endDate : Option Date
  commandLine : Option Text
  requestedBy : Option Text
  changes : List AptPackageChange
  deriving DecidableEq

structure AptHistoryIssue where
  block : ℕ
  message : String
  deriving DecidableEq

structure AptHistoryReport (Date : Type) where
  transactions : List (AptTransaction Date)
  issues : List AptHistoryIssue
  deriving DecidableEq

/-! ## Values -/

def boundedText (value : Text) (maximum : ℕ) : Option Text :=
  if value ≠ [] ∧ utf8Length value ≤ maximum ∧ ¬ value.any isControl then some value else none

/-- No byte of a longer character is among those of the names. -/
def validPackageName (value : Text) : Bool :=
  value ≠ [] && utf8Length value ≤ 255 &&
    value.all fun c => c.isAlphanum || ['+', '-', '.', ':', '_'].contains c

def unbalanced : String := "APT package list has unbalanced parentheses"

/-- The loop of `split_package_entries`, with the depth of the parentheses, the entry that is read
and the entries before it. -/
def splitEntries : ℕ → Text → List Text → Text → Except String (List Text)
  | depth, entry, entries, [] =>
    if depth ≠ 0 then .error unbalanced
    else if trim entry = [] then .ok entries
    else .ok (entries ++ [trim entry])
  | depth, entry, entries, c :: rest =>
    if c = '(' then splitEntries (min (depth + 1) 255) (entry ++ [c]) entries rest
    else if c = ')' then
      if depth = 0 then .error unbalanced
      else splitEntries (depth - 1) (entry ++ [c]) entries rest
    else if c = ',' ∧ depth = 0 then splitEntries depth [] (entries ++ [trim entry]) rest
    else splitEntries depth (entry ++ [c]) entries rest

def splitPackageEntries (value : Text) : Except String (List Text) :=
  splitEntries 0 [] [] value

def automaticMark : Text := "automatic".toList

/-- The old and the new version; there is at least one version. -/
def AptOperation.versions (operation : AptOperation) (versions : List Text) :
    Option Text × Option Text :=
  match operation, versions with
  | .upgrade, [old, new] | .downgrade, [old, new] => (some old, some new)
  | .remove, _ | .purge, _ => (versions.head?, none)
  | _, _ => (none, versions.getLast?)

def parseChange (operation : AptOperation) (item : Text) : Except String AptPackageChange :=
  match splitOnce " (".toList item with
  | none => .error "APT package change has no version details"
  | some (package, details) =>
    if ¬ validPackageName package ∨ details.getLast? ≠ some ')' then
      .error "APT package change contains an invalid package name or tuple"
    else
      let values := (details.dropLast.splitOn ',').map trim
      let automatic := values.contains automaticMark
      let versions := values.filter (· ≠ automaticMark)
      if versions = [] ∨ 2 < versions.length ∨ [] ∈ versions then
        .error "APT package change contains invalid version details"
      else
        let (oldVersion, newVersion) := operation.versions versions
        .ok ⟨operation, package, oldVersion, newVersion, automatic⟩

def parseChanges (operation : AptOperation) (value : Text) :
    Except String (List AptPackageChange) := do
  (← splitPackageEntries value).mapM (parseChange operation)

/-! ## Transactions -/

inductive KnownField
  | startDate | endDate | commandline | requestedBy
  | changes (operation : AptOperation)
  deriving DecidableEq

/-- The arms of the `match` on the name of a field. -/
def KnownField.names : List (Text × KnownField) :=
  [("Start-Date".toList, startDate), ("End-Date".toList, endDate),
    ("Commandline".toList, commandline), ("Requested-By".toList, requestedBy),
    ("Install".toList, changes .install), ("Upgrade".toList, changes .upgrade),
    ("Downgrade".toList, changes .downgrade), ("Remove".toList, changes .remove),
    ("Purge".toList, changes .purge), ("Reinstall".toList, changes .reinstall)]

/-- The variables of `parse_transaction`. -/
structure Draft (Date : Type) where
  start : Option Date
  endDate : Option Date
  commandLine : Option Text
  requestedBy : Option Text
  changes : List AptPackageChange

section Parser

variable {Date : Type} [LinearOrder Date] (parseFromStr : Text → Option Date)

def parseTimestamp (value : Text) : Except String Date :=
  match parseFromStr value with
  | some date => .ok date
  | none => .error "APT transaction contains an invalid timestamp"

def Draft.addChanges (draft : Draft Date) (operation : AptOperation) (value : Text) :
    Except String (Draft Date) := do
  let changes ← parseChanges operation value
  return { draft with changes := draft.changes ++ changes }

def Draft.readField (draft : Draft Date) (field : KnownField) (value : Text) :
    Except String (Draft Date) :=
  match field with
  | .startDate => do
    let date ← parseTimestamp parseFromStr value
    return { draft with start := some date }
  | .endDate => do
    let date ← parseTimestamp parseFromStr value
    return { draft with endDate := some date }
  | .commandline => return { draft with commandLine := boundedText value 4096 }
  | .requestedBy => return { draft with requestedBy := boundedText value 256 }
  | .changes operation => draft.addChanges operation value

def Draft.readLine (draft : Draft Date) (line : Text) : Except String (Draft Date) :=
  match splitOnce [':'] line with
  | none => .ok draft
  | some (field, value) =>
    match KnownField.names.lookup field with
    | none => .ok draft
    | some field => draft.readField parseFromStr field (trim value)

def Draft.finish (draft : Draft Date) : Except String (AptTransaction Date) :=
  match draft.start with
  | none => .error "APT transaction has no valid Start-Date"
  | some start =>
    if draft.endDate.any (· < start) then .error "APT transaction ends before it starts"
    else .ok ⟨start, draft.endDate, draft.commandLine, draft.requestedBy, draft.changes⟩

def parseTransaction (block : Text) : Except String (AptTransaction Date) := do
  let draft ← (lines block).foldlM (Draft.readLine parseFromStr) ⟨none, none, none, none, []⟩
  draft.finish

/-- The loop of `parse_apt_history` from a block on. -/
def parseBlocks : ℕ → List Text → AptHistoryReport Date
  | _, [] => ⟨[], []⟩
  | index, block :: rest =>
    let report := parseBlocks (index + 1) rest
    if trim block = [] then report
    else
      match parseTransaction parseFromStr block with
      | .ok transaction => { report with transactions := transaction :: report.transactions }
      | .error message => { report with issues := ⟨index + 1, message⟩ :: report.issues }

def parseAptHistory (contents : Text) : AptHistoryReport Date :=
  parseBlocks parseFromStr 0 (splitAround "\n\n".toList 0 [] contents)

end Parser

end SnapshotsManager.AptHistory
