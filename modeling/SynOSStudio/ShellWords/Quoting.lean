import Mathlib.Tactic
import SynOSStudio.TextLines.Characters

/-!
# How a shell reads words and quotes

The characters of a script that is not interactive, read one after another. An event says what a
character contributes: a character of a word, a quote, a line that is joined to the next one, the
start of an expansion, or the end of a word. What an expansion consists of is not read.
-/

namespace ShellWords

inductive State
  | start
  | comment
  | plain
  | slash (atStart : Bool)
  | dollar
  | single
  | double
  | doubleSlash
  | doubleDollar
  | expanding
  deriving DecidableEq, Repr

inductive Event
  | char (c : Char) (quoted : Bool)
  | opened
  | closed
  | joined
  | expansion
  | blank
  | newline
  | operator (c : Char)
  deriving DecidableEq, Repr

def isLetter (c : Char) : Bool :=
  ('a' ≤ c && c ≤ 'z') || ('A' ≤ c && c ≤ 'Z') || c == '_'

def isNameChar (c : Char) : Bool :=
  isLetter c || ('0' ≤ c && c ≤ '9')

/-- A dollar sign in front of this starts an expansion. -/
def startsExpansion (c : Char) : Bool :=
  isNameChar c || c ∈ ['\x7b', '(', '[', '@', '*', '#', '?', '$', '!', '-']

/-- What a backslash between double quotes takes its meaning from. -/
def isQuoteSpecial (c : Char) : Bool :=
  c == '$' || c == '`' || c == '"' || c == '\\'

def isOperator (c : Char) : Bool :=
  c ∈ [';', '&', '|', '<', '>', '(', ')']

section Steps

def plainStep (atStart : Bool) (c : Char) : State × List Event :=
  if c = '\n' then (.start, [.newline])
  else if c = ' ' ∨ c = '\t' then (.start, [.blank])
  else if isOperator c then (.start, [.operator c])
  else if c = '"' then (.double, [.opened])
  else if c = '\'' then (.single, [.opened])
  else if c = '\\' then (.slash atStart, [])
  else if c = '$' then (.dollar, [])
  else if c = '`' then (.expanding, [.expansion])
  else if atStart ∧ c = '#' then (.comment, [])
  else (.plain, [.char c false])

def doubleStep (c : Char) : State × List Event :=
  if c = '"' then (.plain, [.closed])
  else if c = '\\' then (.doubleSlash, [])
  else if c = '$' then (.doubleDollar, [])
  else if c = '`' then (.expanding, [.expansion])
  else (.double, [.char c true])

/-- One character; a script loses its null characters when it is read. -/
def step (state : State) (c : Char) : State × List Event :=
  if c = '\x00' then (state, [])
  else
    match state with
    | .start => plainStep true c
    | .plain => plainStep false c
    | .comment => if c = '\n' then (.start, [.newline]) else (.comment, [])
    | .slash atStart =>
      if c = '\n' then (if atStart then .start else .plain, [.joined])
      else (.plain, [.char c true])
    | .dollar =>
      if startsExpansion c ∨ c = '"' ∨ c = '\'' then (.expanding, [.expansion])
      else ((plainStep false c).1, .char '$' false :: (plainStep false c).2)
    | .single => if c = '\'' then (.plain, [.closed]) else (.single, [.char c true])
    | .double => doubleStep c
    | .doubleSlash =>
      if c = '\n' then (.double, [.joined])
      else if isQuoteSpecial c then (.double, [.char c true])
      else (.double, [.char '\\' true, .char c true])
    | .doubleDollar =>
      if startsExpansion c then (.expanding, [.expansion])
      else ((doubleStep c).1, .char '$' true :: (doubleStep c).2)
    | .expanding => (.expanding, [])

/-- A text, from a state that is given. -/
def run : State → List Char → State × List Event
  | state, [] => (state, [])
  | state, c :: text =>
    ((run (step state c).1 text).1, (step state c).2 ++ (run (step state c).1 text).2)

end Steps

/-- A state between double quotes. -/
def State.inDouble : State → Bool
  | .double | .doubleSlash => true
  | _ => false

/-- Whether an event ends a word. -/
def Event.separates : Event → Bool
  | .blank | .newline | .operator _ => true
  | _ => false

/-- The text of a word, where the shell puts nothing in place of what is written. -/
def denoted : List Event → Option (List Char)
  | [] => some []
  | .char c _ :: word => (denoted word).map (c :: ·)
  | .opened :: word | .closed :: word => denoted word
  | _ :: _ => none

/-- Characters of a word that all stand in quotes, or all outside of them. -/
def chars (quoted : Bool) (text : List Char) : List Event :=
  text.map (.char · quoted)

/-- The words that events make. -/
def words (events : List Event) : List (Option (List Char)) :=
  ((events.splitOnP Event.separates).filter (· ≠ [])).map denoted

section Laws

variable {state : State} {c : Char} {text rest : List Char} {events : List Event}

@[simp] theorem run_nil : run state [] = (state, []) := rfl

theorem run_cons : run state (c :: text) =
    ((run (step state c).1 text).1, (step state c).2 ++ (run (step state c).1 text).2) := rfl

theorem run_append : run state (text ++ rest) =
    ((run (run state text).1 rest).1, (run state text).2 ++ (run (run state text).1 rest).2) := by
  induction text generalizing state with
  | nil => rfl
  | cons c text ih =>
    rw [List.cons_append, run_cons, ih, run_cons, List.append_assoc]

/-- What stands for itself outside of quotes. -/
def isOrdinary (c : Char) : Bool :=
  isNameChar c || c == '='

theorem ne_of_isOrdinary {other : Char} (h : isOrdinary c = true)
    (hother : isOrdinary other = false) : c ≠ other := by
  rintro rfl
  rw [h] at hother
  cases hother

theorem step_ordinary (h : isOrdinary c = true) (hstate : state = .start ∨ state = .plain) :
    step state c = (.plain, [.char c false]) := by
  have hne : ∀ other, isOrdinary other = false → c ≠ other := fun _ => ne_of_isOrdinary h
  have hoperator : isOperator c = false := by
    rw [isOperator, decide_eq_false_iff_not]
    intro hmem
    have hall : ∀ other ∈ [';', '&', '|', '<', '>', '(', ')'], isOrdinary other = false := by decide
    exact hne c (hall c hmem) rfl
  have hplain : ∀ atStart, plainStep atStart c = (.plain, [.char c false]) := by
    intro atStart
    simp only [plainStep, hoperator, hne '\n' rfl, hne ' ' rfl, hne '\t' rfl, hne '"' rfl,
      hne '\'' rfl, hne '\\' rfl, hne '$' rfl, hne '`' rfl, hne '#' rfl]
    simp
  unfold step
  rw [if_neg (hne '\x00' rfl)]
  rcases hstate with rfl | rfl
  · exact hplain true
  · exact hplain false

theorem run_ordinary (h : ∀ c ∈ text, isOrdinary c = true) :
    run .plain text = (.plain, chars false text) := by
  induction text with
  | nil => rfl
  | cons c text ih =>
    obtain ⟨hc, htext⟩ := List.forall_mem_cons.mp h
    rw [run_cons, step_ordinary hc (Or.inr rfl), ih htext]
    rfl

/-- A character behind a backslash that it needs. -/
theorem run_escaped (h : isQuoteSpecial c = true) :
    run .double ['\\', c] = (.double, [.char c true]) := by
  simp only [isQuoteSpecial, Bool.or_eq_true, beq_iff_eq] at h
  rcases h with ((rfl | rfl) | rfl) | rfl <;> rfl

/-- A character that needs none. -/
theorem run_unescaped (h : isQuoteSpecial c = false) (hnul : c ≠ '\x00') :
    run .double [c] = (.double, [.char c true]) := by
  simp only [isQuoteSpecial, Bool.or_eq_false_iff, beq_eq_false_iff_ne] at h
  obtain ⟨⟨⟨hdollar, hback⟩, hquote⟩, hslash⟩ := h
  simp [run_cons, step, doubleStep, hnul, hdollar, hback, hquote, hslash]

theorem run_ordinary_word (h : ∀ c ∈ text, isOrdinary c = true) (hne : text ≠ []) :
    run .start text = (.plain, chars false text) := by
  cases text with
  | nil => exact absurd rfl hne
  | cons c text =>
    obtain ⟨hc, htext⟩ := List.forall_mem_cons.mp h
    rw [run_cons, step_ordinary hc (Or.inl rfl), run_ordinary htext]
    rfl

@[simp] theorem denoted_nil : denoted [] = some [] := rfl

@[simp] theorem denoted_opened : denoted (.opened :: events) = denoted events := rfl

@[simp] theorem denoted_closed : denoted (.closed :: events) = denoted events := rfl

@[simp] theorem denoted_char (quoted : Bool) :
    denoted (.char c quoted :: events) = (denoted events).map (c :: ·) := rfl

theorem denoted_chars_append (quoted : Bool) :
    denoted (chars quoted text ++ events) = (denoted events).map (text ++ ·) := by
  induction text with
  | nil => simp [chars]
  | cons c text ih =>
    rw [chars] at ih ⊢
    simp [ih, Function.comp_def]

/-- What stands between quotes is part of its word as it is. -/
theorem denoted_quoted : denoted (.opened :: chars true text ++ [.closed]) = some text := by
  rw [List.cons_append, denoted_opened, denoted_chars_append]
  simp

theorem denoted_chars (quoted : Bool) : denoted (chars quoted text) = some text := by
  have h : denoted (chars quoted text ++ []) = (denoted []).map (text ++ ·) :=
    denoted_chars_append quoted
  simpa using h

theorem separates_of_mem_chars {quoted : Bool} {event : Event} (h : event ∈ chars quoted text) :
    event.separates = false := by
  obtain ⟨c, -, rfl⟩ := List.mem_map.mp h
  rfl

theorem words_append_cons {sep : Event} (hsep : sep.separates = true) (word events : List Event) :
    words (word ++ sep :: events) = words word ++ words events := by
  rw [words, List.splitOnP_append_cons _ _ hsep, List.filter_append, List.map_append]
  rfl

theorem words_word {word : List Event} (h : ∀ event ∈ word, event.separates = false)
    (hne : word ≠ []) : words word = [denoted word] := by
  rw [words, List.splitOnP_eq_singleton h]
  simp [hne]

@[simp] theorem words_nil : words [] = [] := by
  simp [words]

end Laws

end ShellWords
