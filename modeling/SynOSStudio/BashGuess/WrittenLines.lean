import SynOSStudio.BashGuess.Shell

/-!
# Lines written word by word

A line is written from words, each in pieces that are bare, escaped or quoted, and from blanks
and operators between them.
-/

namespace BashGuess

/-! ## Words -/

/-- One way to write some characters of a word. -/
inductive Piece
  | bare (c : Char)
  | escaped (c : Char)
  | single (cs : Text)
  | double (cs : Text)

/-- Characters that need no quotes. -/
def isSafe (c : Char) : Bool :=
  !isAsciiWhitespace c && !isOperatorStart c && c != '\'' && c != '"' && c != '\\' && c != '\x00'

/-- What stands for a character between double quotes. -/
def doubleQuoted (c : Char) : Text :=
  if c = '"' ∨ c = '\\' then ['\\', c] else [c]

def Piece.Written : Piece → Prop
  | .bare c => isSafe c = true
  | .escaped c => isLineBreak c = false
  | .single cs => '\'' ∉ cs ∧ ∀ c ∈ cs, isLineBreak c = false
  | .double cs => ∀ c ∈ cs, isLineBreak c = false

def Piece.text : Piece → Text
  | .bare c => [c]
  | .escaped c => ['\\', c]
  | .single cs => '\'' :: (cs ++ ['\''])
  | .double cs => '"' :: (cs.flatMap doubleQuoted ++ ['"'])

def Piece.value : Piece → Text
  | .bare c => [c]
  | .escaped c => [c]
  | .single cs => cs
  | .double cs => cs

structure Word where
  pieces : List Piece
  nonempty : pieces ≠ []
  written : ∀ piece ∈ pieces, piece.Written

def Word.text (word : Word) : Text := word.pieces.flatMap Piece.text

def Word.value (word : Word) : Text := word.pieces.flatMap Piece.value

/-- Whether an escape is open behind a piece, from whether one is open in front of it: the escape
of a character that is not ASCII stays open. It is open in front of a quote or of an escape only
where that goes wrong, but for the escape of a backslash. -/
def Piece.next : Bool → Piece → Option Bool
  | false, .escaped c => some (!isAscii c)
  | false, _ => some false
  | true, .bare c => some (!isAscii c)
  | true, .escaped c => if c = '\\' then some true else none
  | true, _ => none

def Word.Harmless (word : Word) : Prop :=
  word.pieces.foldlM Piece.next false = some false

instance (word : Word) : Decidable word.Harmless :=
  inferInstanceAs (Decidable (_ = _))

/-! ## Lines -/

inductive Operator
  | pipe
  | or
  | and
  | semicolon
  | background
  deriving DecidableEq

def Operator.text : Operator → Text
  | .pipe => ['|']
  | .or => ['|', '|']
  | .and => ['&', '&']
  | .semicolon => [';']
  | .background => ['&']

inductive Item
  | word (word : Word)
  | space
  | tab
  | operator (operator : Operator)

def Item.text : Item → Text
  | .word w => w.text
  | .space => [' ']
  | .tab => ['\t']
  | .operator op => op.text

def Item.word? : Item → Option Word
  | .word w => some w
  | _ => none

def Item.operator? : Item → Option Operator
  | .operator op => some op
  | _ => none

theorem Item.eq_of_word? {item : Item} {word : Word} (h : item.word? = some word) :
    item = .word word := by
  cases item with
  | word w => exact congrArg Item.word (Option.some_injective _ h)
  | space => cases h
  | tab => cases h
  | operator op => cases h

def Operator.hasPipe (operator : Operator) : Bool :=
  operator = .pipe || operator = .or

/-- Two words do not touch, nor do two operators that are written with bars. -/
def Item.Apart : Item → Item → Prop
  | .word _, .word _ => False
  | .operator first, .operator second => (first.hasPipe && second.hasPipe) = false
  | _, _ => True

structure Line where
  items : List Item
  apart : items.IsChain Item.Apart

def itemsText (items : List Item) : Text := items.flatMap Item.text

def Line.text (line : Line) : Text := itemsText line.items

def wordsOf (items : List Item) : List Word := items.filterMap Item.word?

def Line.words (line : Line) : List Word := wordsOf line.items

@[simp] theorem itemsText_cons (item : Item) (items : List Item) :
    itemsText (item :: items) = item.text ++ itemsText items := List.flatMap_cons

@[simp] theorem wordsOf_word (word : Word) (items : List Item) :
    wordsOf (.word word :: items) = word :: wordsOf items := rfl

theorem wordsOf_of_none {item : Item} (h : item.word? = none) (items : List Item) :
    wordsOf (item :: items) = wordsOf items :=
  List.filterMap_cons_none h

/-- The first word after the last operator, by its number. -/
def lastCommand : ℕ → ℕ → List Item → ℕ
  | start, _, [] => start
  | start, n, .word _ :: items => lastCommand start (n + 1) items
  | _, n, .operator _ :: items => lastCommand n n items
  | start, n, _ :: items => lastCommand start n items

/-- A line cut at its single bars. -/
def segmentsOf : Text → List Item → List Text
  | segment, [] => [segment]
  | segment, .operator .pipe :: items => segment :: segmentsOf [] items
  | segment, item :: items => segmentsOf (segment ++ item.text) items

end BashGuess
