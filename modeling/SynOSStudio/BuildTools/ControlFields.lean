import SynOSStudio.TextLines.Lines
import SynOSStudio.TextPasses.Passes

/-!
# Control files of packages

`apply_base_fields` and `finish_control`, line by line with their patterns. A field whose name
ends in `[base]` stands for the plain field when a package is built for that base.
-/

namespace BuildTools.ControlFields

open TextLines TextPasses

/-! ## Fields of a base -/

def isAsciiLetter (c : Char) : Bool :=
  ('A' ≤ c && c ≤ 'Z') || ('a' ≤ c && c ≤ 'z')

def isDigit (c : Char) : Bool :=
  '0' ≤ c && c ≤ '9'

/-- `[A-Za-z-]` -/
def isFieldChar (c : Char) : Bool :=
  isAsciiLetter c || c == '-'

/-- `[a-z0-9-]` -/
def isBaseChar (c : Char) : Bool :=
  ('a' ≤ c && c ≤ 'z') || isDigit c || c == '-'

/-- `[A-Za-z0-9-]` -/
def isNameChar (c : Char) : Bool :=
  isAsciiLetter c || isDigit c || c == '-'

/-- What follows the name of a base, up to the value. -/
def valueOf : Text → Option Text
  | ']' :: ':' :: value => some (value.dropWhile isSpace)
  | _ => none

/-- `^([A-Za-z-]+)\[([a-z0-9-]+)\]:\s*(.*)$` -/
def bracketed (line : Text) : Option (Text × Text × Text) :=
  match line.dropWhile isFieldChar with
  | '[' :: rest =>
    if line.takeWhile isFieldChar = [] ∨ rest.takeWhile isBaseChar = [] then none
    else
      (valueOf (rest.dropWhile isBaseChar)).map fun value =>
        (line.takeWhile isFieldChar, rest.takeWhile isBaseChar, value)
  | _ => none

/-- `^([A-Za-z-]+):` -/
def headerName (line : Text) : Option Text :=
  match line.dropWhile isFieldChar with
  | ':' :: _ => if line.takeWhile isFieldChar = [] then none else some (line.takeWhile isFieldChar)
  | _ => none

/-- The assignment of an item, which keeps the place of its key. -/
def setItem (items : List (Text × Text)) (key value : Text) : List (Text × Text) :=
  if items.any (·.1 = key) then items.map fun item => if item.1 = key then (key, value) else item
  else items ++ [(key, value)]

def collect (base : Text) (overrides : List (Text × Text)) (line : Text) : List (Text × Text) :=
  match bracketed line with
  | some (field, lineBase, value) => if lineBase = base then setItem overrides field value
    else overrides
  | none => overrides

def valueLine (item : Text × Text) : Text :=
  item.1 ++ ':' :: ' ' :: item.2

def replaceLine (overrides : List (Text × Text)) (line : Text) : Text :=
  match (headerName line).bind fun field => overrides.find? (·.1 = field) with
  | some item => valueLine item
  | none => line

def description : Text := "Description".toList

def isDescription (line : Text) : Bool :=
  (description ++ [':']).isPrefixOf line

/-- Put in front of the first line of the description, or at the end. -/
def insertLine (out : List Text) (item : Text × Text) : List Text :=
  out.takeWhile (¬ isDescription ·) ++ valueLine item :: out.dropWhile (¬ isDescription ·)

def applyBaseFields (control base : Text) : Text :=
  let lines := control.splitOn '\n'
  let overrides := lines.foldl (collect base) []
  let kept := lines.filter (bracketed · = none)
  let unseen := overrides.filter fun item => ¬ kept.any (headerName · = some item.1)
  List.intercalate ['\n'] (unseen.foldl insertLine (kept.map (replaceLine overrides)))

/-! ## The finished file -/

/-- `^[A-Za-z][A-Za-z0-9-]*:\s*$` -/
def isEmptyField (line : Text) : Bool :=
  line.head?.any isAsciiLetter &&
    match line.dropWhile isNameChar with
    | ':' :: rest => rest.all isSpace
    | _ => false

/-- `<\s*>` -/
def emptyAddress (_ : Option Char) : Text → Option (Unit × ℕ)
  | '<' :: rest =>
    if (rest.dropWhile isSpace).head? = some '>' then some ((), (rest.takeWhile isSpace).length + 2)
    else none
  | _ => none

def fillAddresses (owner line : Text) : Text :=
  fill (fun _ _ => '<' :: owner ++ "@localhost>".toList) (scan emptyAddress line)

def maintainer : Text := "Maintainer".toList

def rstrip (line : Text) : Text :=
  line.rdropWhile isSpace

def finishLine (owner line : Text) : Option Text :=
  if isEmptyField line then none
  else if (maintainer ++ [':']).isPrefixOf line then some (rstrip (fillAddresses owner line))
  else some (rstrip line)

/-- `subs.get("BRAND_ID") or "synos"` -/
def ownerOf (brandId : Option Text) : Text :=
  match brandId with
  | none | some [] => "synos".toList
  | some id => id

def finishControl (control : Text) (brandId : Option Text) : Text :=
  let lines := (splitlines control).filterMap (finishLine (ownerOf brandId))
  (List.intercalate ['\n'] lines).rdropWhile (· = '\n') ++ ['\n']

/-! ## Reading a control file -/

/-- A field as it is read, without the white space around its lines. -/
structure Entry where
  name : Text
  first : Text
  continuation : List Text
  deriving DecidableEq

def isContinuation : Text → Bool
  | c :: _ => c == ' ' || c == '\t'
  | [] => false

def readHeader (line : Text) (continuation : List Text) : Option Entry :=
  match line.dropWhile (· ≠ ':') with
  | ':' :: value =>
    let name := line.takeWhile (· ≠ ':')
    if name = [] ∨ name.any isSpace then none else some ⟨name, strip value, continuation⟩
  | _ => none

/-- The fields behind a line, and the continuation lines that belong to the field before them. -/
def readLine (line : Text) : Option (List Text × List Entry) → Option (List Text × List Entry)
  | none => none
  | some (continuation, entries) =>
    if isContinuation line then some (rstrip line :: continuation, entries)
    else (readHeader line continuation).map fun entry => ([], entry :: entries)

def readFields (lines : List Text) : Option (List Entry) :=
  match lines.foldr readLine (some ([], [])) with
  | some ([], entries) => some entries
  | _ => none

/-- A single paragraph; more than one is an error. -/
def parse (text : Text) : Option (List Entry) :=
  let lines := text.splitOn '\n'
  if (lines.dropWhile fun line => ¬ line.all isSpace).all fun line => line.all isSpace then
    readFields (lines.takeWhile fun line => ¬ line.all isSpace)
  else
    none

end BuildTools.ControlFields
