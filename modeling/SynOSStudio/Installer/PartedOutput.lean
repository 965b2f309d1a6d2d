import SynOSStudio.Installer.StorageInventory
import SynOSStudio.KeyedLists.Dictionaries
import SynOSStudio.TextLines.Lines

/-!
# The output of parted

How the geometry of a disk is read from the machine output of `parted print free`, and checked
against the partitions that `lsblk` lists.
-/

namespace Installer

open TextLines

/-- What Python makes of a text as a number and as a literal. A number that is too long is not
converted. -/
structure Numerals where
  isdigit : Text → Bool
  int : Text → Except String ℤ
  repr : Text → String
  digits : ∀ n, isdigit (Nat.toDigits 10 n) = true
  value : ∀ n, (Nat.toDigits 10 n).length ≤ 4300 → int (Nat.toDigits 10 n) = .ok n
  slash : ∀ text, '/' ∈ text → isdigit text = false

structure PartedPartition where
  number : ℤ
  startBytes : ℤ
  sizeBytes : ℤ
  flags : List String
  deriving DecidableEq

structure PartedGeometry where
  partitions : List PartedPartition
  freeExtents : List (ℤ × ℤ)
  error : String := ""

section Fields

/-- `_split_parted_fields`, with the field that has been read so far. -/
def splitFieldsFrom (current : Text) (escaped : Bool) : Text → List Text
  | [] => [if escaped then current ++ ['\\'] else current]
  | c :: rest =>
    if escaped then splitFieldsFrom (current ++ [c]) false rest
    else if c = '\\' then splitFieldsFrom current true rest
    else if c = ':' then current :: splitFieldsFrom [] false rest
    else splitFieldsFrom (current ++ [c]) false rest

def splitPartedFields (value : Text) : List Text := splitFieldsFrom [] false value

variable (casing : Casing) (numerals : Numerals)

def partedBytes (value : Text) : Except String ℤ :=
  let normalized := strip value
  let normalized :=
    if normalized.getLast? = some 'B' then normalized.dropLast else normalized
  if numerals.isdigit normalized then numerals.int normalized
  else .error s!"invalid byte geometry {numerals.repr value}"

/-- What one line of the output adds. -/
inductive Reading
  | skip
  | header
  | free (startBytes sizeBytes : ℤ)
  | partition (item : PartedPartition)
  deriving DecidableEq

def lowered (field : Text) : String := casing.lower (String.ofList (strip field))

def ReadsFree (field : Text) : Prop := lowered casing field = "free"

instance (field : Text) : Decidable (ReadsFree casing field) :=
  inferInstanceAs (Decidable (_ = _))

def partedFlags (field : Text) : List String :=
  (((field.splitOn ',').filter fun flag => strip flag ≠ []).map (lowered casing)).insertionSort
    (· ≤ ·)

/-- A row with its fields; a free row is known by its marker, whatever stands in the first field. -/
def readFields : List Text → Except String Reading
  | number :: start :: _ :: size :: rest =>
    if rest.any fun field => ReadsFree casing field then do
      let start ← partedBytes numerals start
      let size ← partedBytes numerals size
      return .free start size
    else if numerals.isdigit number then do
      let number ← numerals.int number
      let start ← partedBytes numerals start
      let size ← partedBytes numerals size
      let flags := if 3 ≤ rest.length then partedFlags casing (rest.getLast?.getD []) else []
      return .partition ⟨number, start, size, flags⟩
    else return .skip
  | _ => return .skip

def readLine (rawLine : Text) : Except String Reading :=
  let line := strip rawLine
  if line = [] then return .skip
  else if line = "BYT;".toList then return .header
  else if line.getLast? ≠ some ';' then return .skip
  else readFields casing numerals (splitPartedFields line.dropLast)

def Reading.item : Reading → Option PartedPartition
  | partition item => some item
  | _ => none

def Reading.extent : Reading → Option (ℤ × ℤ)
  | free start size => some (start, size)
  | _ => none

def byNumber (a b : PartedPartition) : Prop := a.number ≤ b.number

instance : DecidableRel byNumber := fun _ _ => inferInstanceAs (Decidable (_ ≤ _))

def byExtent (a b : ℤ × ℤ) : Prop := a.1 < b.1 ∨ a.1 = b.1 ∧ a.2 ≤ b.2

instance : DecidableRel byExtent := fun _ _ => inferInstanceAs (Decidable (_ ∨ _))

def parsePartedMachine (output : Text) : Except String PartedGeometry := do
  let readings ← (splitlines output).mapM (readLine casing numerals)
  if Reading.header ∈ readings then
    return {
      partitions := (readings.filterMap Reading.item).insertionSort byNumber
      freeExtents := (readings.filterMap Reading.extent).insertionSort byExtent }
  else .error "missing BYT header"

/-- The output, or the text of what went wrong with the command. -/
def probePartedGeometry (output : Except String Text) : PartedGeometry :=
  match output with
  | .error error => ⟨[], [], error⟩
  | .ok output =>
    match parsePartedMachine casing numerals output with
    | .error error => ⟨[], [], s!"Invalid parted output: {error}"⟩
    | .ok geometry => geometry

end Fields

section Children

/-- A device directly below the disk, as `lsblk` lists it. -/
structure LsblkChild where
  type : String
  partn : Option ℤ
  start : Option ℤ
  size : Option ℤ
  path : String
  partuuid : String
  parttype : String
  fstype : String
  uuid : String
  mountpoints : List String

def nonnegativeInt (value : Option ℤ) : ℤ := max 0 (value.getD 0)

def LsblkChild.number (child : LsblkChild) : ℤ := nonnegativeInt child.partn

def sortedNumbers (numbers : List ℤ) : List ℤ := numbers.dedup.insertionSort (· ≤ ·)

def numbersText (numbers : List ℤ) : String :=
  "[" ++ ", ".intercalate (numbers.map toString) ++ "]"

def geometryMismatch (children : List LsblkChild) (geometry : PartedGeometry) : String :=
  let parts := children.filter fun child => child.type = "part"
  let lsblkNumbers := sortedNumbers ((parts.map LsblkChild.number).filter (0 < ·))
  let partedNumbers := sortedNumbers (geometry.partitions.map PartedPartition.number)
  if parts.any fun child => child.number ≤ 0 then "lsblk did not report every partition number"
  else if lsblkNumbers ≠ partedNumbers then
    s!"lsblk and parted partition sets differ: lsblk={numbersText lsblkNumbers}, parted={numbersText partedNumbers}"
  else ""

variable (casing : Casing)

/-- The partition of a child, with the geometry that parted has for its number. -/
def buildPartition (geometry : PartedGeometry) (logicalSector : ℤ) (child : LsblkChild) :
    Option PartitionInventory :=
  if child.type ≠ "part" ∨ child.number ≤ 0 then none
  else
    let (startBytes, sizeBytes, flags) :=
      match KeyedLists.entry PartedPartition.number geometry.partitions child.number with
      | some parted => (parted.startBytes, parted.sizeBytes, parted.flags)
      | none => (nonnegativeInt child.start * logicalSector, nonnegativeInt child.size, [])
    if sizeBytes ≤ 0 then none
    else some {
      identity := ⟨child.path, child.number, casing.lower child.partuuid, startBytes, sizeBytes⟩
      partitionType := casing.lower child.parttype
      filesystemType := casing.lower child.fstype
      filesystemUuid := child.uuid
      mountpoints := (child.mountpoints.filter (· ≠ "")).insertionSort (· ≤ ·)
      flags := flags }

def byStart (a b : PartitionInventory) : Prop :=
  a.identity.startBytes < b.identity.startBytes ∨
    a.identity.startBytes = b.identity.startBytes ∧ a.identity.number ≤ b.identity.number

instance : DecidableRel byStart := fun _ _ => inferInstanceAs (Decidable (_ ∨ _))

def buildPartitions (children : List LsblkChild) (geometry : PartedGeometry)
    (logicalSector : ℤ) : List PartitionInventory :=
  (children.filterMap (buildPartition casing geometry logicalSector)).insertionSort byStart

/-- The part of a `DiskInventory` that is read from the two tools. -/
structure DiskGeometry where
  partitions : List PartitionInventory
  freeExtents : List FreeExtent
  geometryProbeError : String
  deriving DecidableEq

/-- One turn of the loop of `probe_storage_inventory`. -/
def probeDiskGeometry (numerals : Numerals) (children : List LsblkChild) (logicalSector : ℤ)
    (output : Except String Text) : DiskGeometry :=
  let geometry := probePartedGeometry casing numerals output
  let geometryError :=
    if geometry.error ≠ "" then geometry.error else geometryMismatch children geometry
  { partitions := buildPartitions casing children geometry logicalSector
    freeExtents :=
      ((if geometryError ≠ "" then [] else geometry.freeExtents).filter fun extent =>
        0 ≤ extent.1 ∧ 0 < extent.2).map fun extent => ⟨extent.1, extent.2⟩
    geometryProbeError := geometryError }

end Children

end Installer
