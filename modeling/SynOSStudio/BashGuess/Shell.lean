import Mathlib.Data.List.DropRight
import Mathlib.Tactic
import SynOSStudio.TextLines.Characters

/-!
# The tokens of an incomplete shell line

A line is the list of its characters; positions count characters. Quotes and backslashes
are decoded, operators end a simple command, and nothing is expanded.
-/

namespace BashGuess

abbrev Text := List Char

section Characters

def isAscii (c : Char) : Bool :=
  c.toNat < 128

/-- `u8::is_ascii_whitespace` -/
def isAsciiWhitespace (c : Char) : Bool :=
  c == ' ' || c == '\t' || c == '\n' || c == '\x0c' || c == '\r'

/-- `char::is_whitespace` -/
def isWhitespace (c : Char) : Bool :=
  let n := c.toNat
  (9 ≤ n && n ≤ 13) || n == 32 || (0x2000 ≤ n && n ≤ 0x200a) ||
    [0x85, 0xa0, 0x1680, 0x2028, 0x2029, 0x202f, 0x205f, 0x3000].contains n

/-- `char::is_control` -/
def isControl (c : Char) : Bool :=
  c.toNat < 32 || (127 ≤ c.toNat && c.toNat < 160)

def isOperatorStart (c : Char) : Bool :=
  c == '|' || c == '&' || c == ';' || c == '<' || c == '>'

/-- Whether an operator takes the next character too. -/
def isDoubleOperator (c : Char) (next : Option Char) : Bool :=
  [('|', '|'), ('&', '&'), ('>', '>'), ('<', '<'), ('|', '&')].any fun pair =>
    pair.1 == c && some pair.2 == next

end Characters

structure Token where
  value : Text
  start : ℕ
  stop : ℕ
  deriving DecidableEq

structure ParsedLine where
  source : Text
  tokens : List Token
  commandStart : ℕ
  trailingSpace : Bool
  currentPrefix : Text
  deriving DecidableEq

def ParsedLine.commandTokens (parsed : ParsedLine) : List Token :=
  parsed.tokens.drop parsed.commandStart

def ParsedLine.commandValues (parsed : ParsedLine) : List Text :=
  parsed.commandTokens.map Token.value

section Scanning

/-- The variables of the loop of `parse_line`. -/
structure Scan where
  tokens : List Token
  value : Text
  tokenStart : Option ℕ
  quote : Option Char
  escaped : Bool
  commandStart : ℕ
  index : ℕ

def Scan.start : Scan := ⟨[], [], none, none, false, 0, 0⟩

def Scan.openToken (s : Scan) : Scan :=
  { s with tokenStart := some (s.tokenStart.getD s.index) }

def Scan.push (s : Scan) (c : Char) : Scan :=
  { s with value := s.value ++ [c] }

def Scan.finishToken (s : Scan) (stop : ℕ) : Scan :=
  match s.tokenStart with
  | none => s
  | some start =>
    { s with tokens := s.tokens ++ [⟨s.value, start, stop⟩], value := [], tokenStart := none }

def Scan.advance (s : Scan) (n : ℕ) : Scan :=
  { s with index := s.index + n }

/-- An operator ends the token and starts the next simple command. -/
def Scan.operator (s : Scan) (length : ℕ) : Scan :=
  let finished := s.finishToken s.index
  { finished with commandStart := finished.tokens.length, index := finished.index + length }

/-- One turn of the loop; the flag says that the next character is passed too. -/
def Scan.step (s : Scan) (c : Char) (next : Option Char) : Scan × Bool :=
  if !isAscii c then ((s.openToken.push c).advance 1, false)
  else if s.escaped then (({ s with escaped := false }.push c).advance 1, false)
  else if c == '\\' && s.quote != some '\'' then
    ({ s.openToken with escaped := true }.advance 1, false)
  else if s.quote.isSome then
    if s.quote == some c then ({ s with quote := none }.advance 1, false)
    else ((s.push c).advance 1, false)
  else if c == '\'' || c == '"' then ({ s.openToken with quote := some c }.advance 1, false)
  else if isAsciiWhitespace c then ((s.finishToken s.index).advance 1, false)
  else if isOperatorStart c then
    if isDoubleOperator c next then (s.operator 2, true) else (s.operator 1, false)
  else ((s.openToken.push c).advance 1, false)

def scan : Text → Scan → Scan
  | [], s => s
  | [c], s => (s.step c none).1
  | c :: d :: rest, s =>
    if (s.step c (some d)).2 then scan rest (s.step c (some d)).1
    else scan (d :: rest) (s.step c (some d)).1

/-- The end of the loop: an open escape is a backslash, an open quote is closed. -/
def Scan.finish (s : Scan) : Scan :=
  (if s.escaped then s.push '\\' else s).finishToken s.index

end Scanning

section Prefixes

def isAssignment (value : Text) : Bool :=
  match value.span (· != '=') with
  | (_, []) => false
  | ([], _) => false
  | (first :: rest, _) => (first == '_' || first.isAlpha) && rest.all fun c =>
      c == '_' || c.isAlpha || c.isDigit

/-- The number of tokens that are options of `sudo`. -/
def sudoOptions : List Token → ℕ
  | [] => 0
  | [token] =>
    if String.ofList token.value ∈ ["-E", "-H", "-S", "-n", "-k", "--"] then 1
    else if String.ofList token.value ∈ ["-u", "-g", "-h", "-p"] then 2
    else if "--user=".toList.isPrefixOf token.value || "--group=".toList.isPrefixOf token.value then 1
    else 0
  | token :: argument :: rest =>
    if String.ofList token.value ∈ ["-E", "-H", "-S", "-n", "-k", "--"] then
      1 + sudoOptions (argument :: rest)
    else if String.ofList token.value ∈ ["-u", "-g", "-h", "-p"] then 2 + sudoOptions rest
    else if "--user=".toList.isPrefixOf token.value || "--group=".toList.isPrefixOf token.value then
      1 + sudoOptions (argument :: rest)
    else 0

def skipAssignments (tokens : List Token) (start : ℕ) : ℕ :=
  start + ((tokens.drop start).takeWhile fun token => isAssignment token.value).length

def skipWord (words : List String) (tokens : List Token) (start : ℕ) : ℕ :=
  match tokens[start]? with
  | none => start
  | some token => if String.ofList token.value ∈ words then start + 1 else start

def skipSudo (tokens : List Token) (start : ℕ) : ℕ :=
  let after := skipWord ["sudo"] tokens start
  if after = start then start else after + sudoOptions (tokens.drop after)

def unwrapCommandPrefix (tokens : List Token) (start : ℕ) : ℕ :=
  let start := skipAssignments tokens start
  let start := skipWord ["command", "time"] tokens start
  let start := skipSudo tokens start
  min (skipAssignments tokens start) tokens.length

end Prefixes

def endsInSpace (source : Text) : Bool :=
  source.getLast?.any isAsciiWhitespace

def currentPrefixOf (source : Text) (s : Scan) : Text :=
  if endsInSpace source || s.commandStart == s.tokens.length then []
  else (s.tokens.getLast?.map Token.value).getD []

/-- The tokens of a text without line breaks. -/
def parsedSource (source : Text) : ParsedLine :=
  let s := (scan source .start).finish
  ⟨source, s.tokens, unwrapCommandPrefix s.tokens s.commandStart, endsInSpace source,
    currentPrefixOf source s⟩

def isLineBreak (c : Char) : Bool :=
  c == '\n' || c == '\r' || c == '\x00'

def parseLine (line : Text) (cursor : ℕ) : Option ParsedLine :=
  if line.length < cursor then none
  else if (line.take cursor).any isLineBreak then none
  else some (parsedSource (line.take cursor))

example : (parseLine "MODE=dev sudo -E docker exec -it ".toList 33).map
    (fun parsed => (parsed.commandValues.map String.ofList, parsed.trailingSpace)) =
      some (["docker", "exec", "-it"], true) := by decide +kernel

end BashGuess
