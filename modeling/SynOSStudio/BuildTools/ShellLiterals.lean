import SynOSStudio.ShellWords.Quoting
import SynOSStudio.TextLines.Lines

/-!
# Exported values

The renderer writes each value between double quotes, with a backslash in front of what a shell
would not take as it is. A shell that reads the line again gets the value back.
-/

namespace BuildTools.ShellLiterals

open TextLines ShellWords

/-- `str.replace`, of a single character. -/
def replace (old : Char) (new : Text) (text : Text) : Text :=
  text.flatMap fun c => if c = old then new else [c]

def q (text : Text) : Text :=
  '"' :: replace '`' ['\\', '`'] (replace '$' ['\\', '$'] (replace '"' ['\\', '"']
    (replace '\\' ['\\', '\\'] text))) ++ ['"']

def exportWord : Text := ['e', 'x', 'p', 'o', 'r', 't']

/-- What stands in front of the value of an exported variable. -/
def assignment (name : Text) : Text :=
  exportWord ++ ' ' :: (name ++ ['='])

/-- A line of the rendered file. -/
def exportLine (name value : Text) : Text :=
  assignment name ++ q value ++ ['\n']

/-- What the four replacements make of a character. -/
def escaped (c : Char) : Text :=
  if isQuoteSpecial c then ['\\', c] else [c]

section Replacements

variable {text p : Text} {c : Char}

/-- No replacement touches what an earlier one has put in. -/
theorem replace_replace_char (c : Char) :
    replace '`' ['\\', '`'] (replace '$' ['\\', '$'] (replace '"' ['\\', '"']
      (replace '\\' ['\\', '\\'] [c]))) = escaped c := by
  by_cases h : isQuoteSpecial c = true
  · have hcases := h
    simp only [isQuoteSpecial, Bool.or_eq_true, beq_iff_eq] at hcases
    rcases hcases with ((rfl | rfl) | rfl) | rfl <;> rfl
  · rw [escaped, if_neg h]
    simp only [isQuoteSpecial, Bool.or_eq_true, beq_iff_eq, not_or] at h
    obtain ⟨⟨⟨hdollar, hback⟩, hquote⟩, hslash⟩ := h
    simp [replace, hdollar, hback, hquote, hslash]

theorem replace_append (old : Char) (new text rest : Text) :
    replace old new (text ++ rest) = replace old new text ++ replace old new rest :=
  List.flatMap_append

/-- The replacements one after another are one pass over the text. -/
theorem q_eq (text : Text) : q text = '"' :: text.flatMap escaped ++ ['"'] := by
  have hbody : replace '`' ['\\', '`'] (replace '$' ['\\', '$'] (replace '"' ['\\', '"']
      (replace '\\' ['\\', '\\'] text))) = text.flatMap escaped := by
    induction text with
    | nil => rfl
    | cons c text ih =>
      have hsplit : c :: text = [c] ++ text := rfl
      rw [hsplit, List.flatMap_append, replace_append, replace_append, replace_append,
        replace_append, ih, replace_replace_char, List.flatMap_singleton]
  rw [q, hbody]

end Replacements

section Reading

variable {name value front : Text} {c : Char}

theorem run_escaped_char (hnul : c ≠ '\x00') :
    run .double (escaped c) = (.double, [.char c true]) := by
  unfold escaped
  split_ifs with h
  · exact run_escaped h
  · exact run_unescaped (Bool.eq_false_iff.mpr h) hnul

/-- Between the quotes the value is read character by character. -/
theorem run_body (hvalue : '\x00' ∉ value) :
    run .double (value.flatMap escaped) = (.double, chars true value) := by
  induction value with
  | nil => rfl
  | cons c value ih =>
    obtain ⟨hc, hvalue⟩ := not_or.mp (List.mem_cons.not.mp hvalue)
    rw [List.flatMap_cons, run_append, run_escaped_char (Ne.symm hc), ih hvalue]
    rfl

theorem run_q (hvalue : '\x00' ∉ value) :
    run .plain (q value) = (.plain, .opened :: chars true value ++ [.closed]) := by
  have hopen : run .plain ['"'] = (.double, [.opened]) := rfl
  rw [q_eq, List.cons_append, ← List.singleton_append, run_append, hopen, run_append,
    run_body hvalue]
  rfl

theorem inDouble_escaped (hnul : c ≠ '\x00') (hfront : front <+: escaped c) :
    (run .double front).1.inDouble = true := by
  by_cases hwhole : front = escaped c
  · rw [hwhole, run_escaped_char hnul]
    rfl
  · unfold escaped at hfront hwhole
    split_ifs at hfront hwhole
    · rcases List.prefix_cons_iff.mp hfront with rfl | ⟨rest, rfl, hrest⟩
      · rfl
      · rcases List.prefix_cons_iff.mp hrest with rfl | ⟨rest', rfl, hrest'⟩
        · rfl
        · rw [List.prefix_nil.mp hrest'] at hwhole
          exact absurd rfl hwhole
    · rcases List.prefix_cons_iff.mp hfront with rfl | ⟨rest, rfl, hrest⟩
      · rfl
      · rw [List.prefix_nil.mp hrest] at hwhole
        exact absurd rfl hwhole

/-- Nowhere in the middle of the body are the quotes closed. -/
theorem inDouble_body (hvalue : '\x00' ∉ value) (hfront : front <+: value.flatMap escaped) :
    (run .double front).1.inDouble = true := by
  induction value generalizing front with
  | nil =>
    rw [List.prefix_nil.mp hfront]
    rfl
  | cons c value ih =>
    obtain ⟨hc, hvalue⟩ := not_or.mp (List.mem_cons.not.mp hvalue)
    rw [List.flatMap_cons] at hfront
    rcases List.prefix_or_prefix_of_prefix hfront (List.prefix_append (escaped c) _) with
      hshort | ⟨rest, rfl⟩
    · exact inDouble_escaped (Ne.symm hc) hshort
    · rw [run_append, run_escaped_char (Ne.symm hc)]
      exact ih hvalue ((List.prefix_append_right_inj _).mp hfront)

/-- A literal that is read between double quotes up to its last character, and whose characters
stand for exactly these. -/
structure Denotes (literal value : Text) : Prop where
  inside : ∀ front, front <+: literal → front ≠ [] → front ≠ literal →
    (run .plain front).1.inDouble = true
  read : run .plain literal = (.plain, .opened :: chars true value ++ [.closed])

theorem denotes_q (hvalue : '\x00' ∉ value) : Denotes (q value) value where
  inside front hfront hne hwhole := by
    rw [q_eq] at hfront hwhole
    rcases List.prefix_concat_iff.mp hfront with heq | hfront
    · exact absurd heq hwhole
    · rcases List.prefix_cons_iff.mp hfront with rfl | ⟨rest, rfl, hrest⟩
      · exact absurd rfl hne
      · have hopen : run .plain ['"'] = (.double, [.opened]) := rfl
        rw [← List.singleton_append, run_append, hopen]
        exact inDouble_body hvalue hrest
  read := run_q hvalue

def assignmentEvents (name : Text) : List Event :=
  chars false exportWord ++ .blank :: chars false (name ++ ['='])

theorem run_assignment (hname : ∀ c ∈ name, isNameChar c = true) :
    run .start (assignment name) = (.plain, assignmentEvents name) := by
  have hexport : run .start exportWord = (.plain, chars false exportWord) :=
    run_ordinary_word (by decide) (List.cons_ne_nil _ _)
  have hblank : step .plain ' ' = (.start, [.blank]) := rfl
  have hordinary : ∀ c ∈ name ++ ['='], isOrdinary c = true := by
    intro c hc
    rcases List.mem_append.mp hc with hc | hc
    · rw [isOrdinary, hname c hc, Bool.true_or]
    · rw [List.mem_singleton.mp hc]
      rfl
  have hne : name ++ ['='] ≠ [] := List.append_ne_nil_of_right_ne_nil _ (List.cons_ne_nil _ _)
  rw [assignment, run_append, hexport, run_cons, hblank, run_ordinary_word hordinary hne]
  rfl

/-- The word that the literal belongs to. -/
def assignmentWord (name value : Text) : List Event :=
  chars false (name ++ ['=']) ++ (.opened :: chars true value ++ [.closed])

theorem words_assignmentWord (name value : Text) :
    words (assignmentWord name value) = [some (name ++ '=' :: value)] := by
  have hword : ∀ event ∈ assignmentWord name value, event.separates = false := by
    intro event hevent
    rcases List.mem_append.mp hevent with hevent | hevent
    · exact separates_of_mem_chars hevent
    · rcases List.mem_append.mp hevent with hevent | hevent
      · rcases List.mem_cons.mp hevent with rfl | hevent
        · rfl
        · exact separates_of_mem_chars hevent
      · rw [List.mem_singleton.mp hevent]
        rfl
  have hne : assignmentWord name value ≠ [] :=
    List.append_ne_nil_of_right_ne_nil _ (List.cons_ne_nil _ _)
  rw [words_word hword hne, assignmentWord, denoted_chars_append, denoted_quoted]
  simp

theorem words_exportWord : words (chars false exportWord) = [some exportWord] := by
  have hne : chars false exportWord ≠ [] := List.cons_ne_nil _ _
  rw [words_word (fun _ => separates_of_mem_chars) hne, denoted_chars]

theorem run_assignment_q (hname : ∀ c ∈ name, isNameChar c = true) (hvalue : '\x00' ∉ value) :
    run .start (assignment name ++ q value) =
      (.plain, chars false exportWord ++ .blank :: assignmentWord name value) := by
  rw [run_append, run_assignment hname, run_q hvalue, assignmentEvents, assignmentWord,
    List.append_assoc]
  rfl

theorem run_exportLine (hname : ∀ c ∈ name, isNameChar c = true) (hvalue : '\x00' ∉ value) :
    run .start (exportLine name value) =
      (.start, chars false exportWord ++ .blank :: (assignmentWord name value ++ [.newline])) := by
  have hnewline : run .plain ['\n'] = (.start, [.newline]) := rfl
  rw [exportLine, run_append, run_assignment_q hname hvalue, hnewline, List.append_assoc,
    List.cons_append]

end Reading

section Scripts

/-- Exported lines one after another give one assignment each, of exactly the values. -/
theorem words_exports {exports : List (Text × Text)}
    (hnames : ∀ e ∈ exports, ∀ c ∈ e.1, isNameChar c = true)
    (hvalues : ∀ e ∈ exports, '\x00' ∉ e.2) :
    (run .start (exports.flatMap fun e => exportLine e.1 e.2)).1 = .start ∧
      words (run .start (exports.flatMap fun e => exportLine e.1 e.2)).2 =
        exports.flatMap fun e => [some exportWord, some (e.1 ++ '=' :: e.2)] := by
  induction exports with
  | nil => exact ⟨rfl, words_nil⟩
  | cons e exports ih =>
    obtain ⟨hname, hnames⟩ := List.forall_mem_cons.mp hnames
    obtain ⟨hvalue, hvalues⟩ := List.forall_mem_cons.mp hvalues
    obtain ⟨hstate, hwords⟩ := ih hnames hvalues
    rw [List.flatMap_cons, run_append, run_exportLine hname hvalue]
    refine ⟨hstate, ?_⟩
    rw [List.append_assoc, List.cons_append, List.append_assoc, words_append_cons rfl,
      List.singleton_append, words_append_cons rfl, words_exportWord, words_assignmentWord, hwords]
    rfl

/-- A literal behind `export NAME=` is the rest of one word and denotes its value: it is between
double quotes up to its last character, and nothing in it is expanded or removed. -/
theorem q_denotes {name value : Text} (hname : ∀ c ∈ name, isNameChar c = true)
    (hvalue : '\x00' ∉ value) :
    Denotes (q value) value ∧
      run .start (assignment name ++ q value) =
        (.plain, assignmentEvents name ++ (.opened :: chars true value ++ [.closed])) ∧
      words (run .start (assignment name ++ q value)).2 =
        [some exportWord, some (name ++ '=' :: value)] := by
  refine ⟨denotes_q hvalue, ?_, ?_⟩
  · rw [run_append, run_assignment hname, run_q hvalue]
  · rw [run_assignment_q hname hvalue, words_append_cons rfl, words_exportWord,
      words_assignmentWord]
    rfl

/-- Backslashes, a newline, both kinds of quotes, a dollar sign and a backtick. -/
def mixedValue : Text :=
  ['\\', '\\', '\n', '\\', '"', '\'', '$', '(', 'a', ')', '`', '\\']

theorem mixedValue_denoted :
    Denotes (q mixedValue) mixedValue ∧
      run .start (assignment ['V'] ++ q mixedValue) =
        (.plain, assignmentEvents ['V'] ++ (.opened :: chars true mixedValue ++ [.closed])) ∧
      words (run .start (assignment ['V'] ++ q mixedValue)).2 =
        [some exportWord, some (['V'] ++ '=' :: mixedValue)] :=
  q_denotes (by decide) (by decide)

end Scripts

end BuildTools.ShellLiterals
