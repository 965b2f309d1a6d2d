import SynOSStudio.SecurityKeys.SshConfig

/-!
# Which includes are seen

The `Include` directives of OpenSSH that load the fragment, beside the ones that are taken for a
reference to it, and the wildcard patterns beside the matcher.
-/

namespace SecurityKeys.Ssh

open ByteStreams WildcardPatterns

/-! ## The directives of OpenSSH -/

def IsBlank (c : Char) : Prop := c = ' ' ∨ c = '\t'

/-- An argument, with or without quotes around it. -/
inductive Argument where
  | bare (text : Text)
  | quoted (text : Text)

namespace Argument

def text : Argument → Text
  | bare text => text
  | quoted text => text

def written : Argument → Text
  | bare text => text
  | quoted text => '"' :: (text ++ ['"'])

def WellFormed : Argument → Prop
  | bare text => (∀ c ∈ text, ¬ IsBlank c ∧ c ≠ '"' ∧ c ≠ '\n' ∧ c ≠ '\r') ∧
      ∃ c ∈ text.head?, c ≠ '=' ∧ c ≠ '#'
  | quoted text => ∀ c ∈ text, c ≠ '"' ∧ c ≠ '\n' ∧ c ≠ '\r'

end Argument

/-- Blanks, or an equals sign with blanks around it. -/
def IsSeparator (separator : Text) : Prop :=
  (separator ≠ [] ∧ ∀ c ∈ separator, IsBlank c) ∨
    ∃ before after, separator = before ++ '=' :: after ∧ ∀ c ∈ before ++ after, IsBlank c

/-- An `Include` directive; after each argument there are the blanks that follow it. -/
structure Directive where
  indent : Text
  keyword : Text
  separator : Text
  arguments : List (Argument × Text)
  isIndent : ∀ c ∈ indent, IsBlank c
  isKeyword : keyword.map Char.toLower = "include".toList
  isSeparator : IsSeparator separator
  isArgument : ∀ argument ∈ arguments, argument.1.WellFormed ∧ ∀ c ∈ argument.2, IsBlank c
  apart : ∀ argument ∈ arguments.dropLast, argument.2 ≠ []

namespace Directive

variable (d : Directive)

def argumentText : Text :=
  d.arguments.flatMap fun argument => argument.1.written ++ argument.2

def line : Text :=
  d.indent ++ (d.keyword ++ (d.separator ++ d.argumentText))

end Directive

/-- The path pattern that an argument stands for. -/
def resolve (home pattern : Text) : Text :=
  match pattern with
  | '/' :: _ => pattern
  | '~' :: '/' :: rest => home ++ '/' :: rest
  | _ => home ++ "/.ssh/".toList ++ pattern

def fragmentPath (home : Text) : Text :=
  home ++ "/.ssh/".toList ++ MANAGED_RELATIVE_PATH.toList

/-- Each name of the path matches its name in the pattern. -/
def GlobMatches (pattern path : Text) : Prop :=
  List.Forall₂ (Matches 63 42) ((utf8Bytes pattern).splitOn 47) ((utf8Bytes path).splitOn 47)

/-- OpenSSH loads the fragment for this directive. -/
def Directive.LoadsFragment (home : Text) (d : Directive) : Prop :=
  ∃ argument ∈ d.arguments, '[' ∉ argument.1.text ∧
    GlobMatches (resolve home argument.1.text) (fragmentPath home)

/-- The keyword in one of its two usual spellings, white space after it, and a word that names
the fragment. -/
structure Directive.Usual (d : Directive) : Prop where
  keyword : d.keyword = "Include".toList ∨ d.keyword = "include".toList
  separator : ∀ c ∈ d.separator.head?, IsBlank c
  word : ∃ word ∈ splitWhitespace (d.separator ++ d.argumentText), namesFragment word = true

/-! ## What is seen of a directive -/

section Lines

variable {d : Directive} {c : Char}

theorem isWhitespace_of_isBlank (h : IsBlank c) : isWhitespace c = true := by
  rcases h with rfl | rfl
  · rfl
  · rfl

theorem ne_newline_of_isBlank (h : IsBlank c) : c ≠ '\n' := by
  rcases h with rfl | rfl
  · decide
  · decide

theorem Directive.separator_ne_nil : d.separator ≠ [] := by
  rcases d.isSeparator with ⟨hne, -⟩ | ⟨before, after, heq, -⟩
  · exact hne
  · rw [heq]
    simp

theorem Directive.newline_notMem_separator : '\n' ∉ d.separator := by
  intro hmem
  rcases d.isSeparator with ⟨-, hblank⟩ | ⟨before, after, heq, hblank⟩
  · exact ne_newline_of_isBlank (hblank _ hmem) rfl
  · rw [heq, List.mem_append, List.mem_cons] at hmem
    rcases hmem with hbefore | hequals | hafter
    · exact ne_newline_of_isBlank (hblank _ (List.mem_append_left _ hbefore)) rfl
    · revert hequals
      decide
    · exact ne_newline_of_isBlank (hblank _ (List.mem_append_right _ hafter)) rfl

theorem Argument.newline_notMem {argument : Argument} (h : argument.WellFormed) :
    '\n' ∉ argument.written := by
  cases argument with
  | bare text => exact fun hmem => (h.1 _ hmem).2.2.1 rfl
  | quoted text =>
    intro hmem
    simp only [Argument.written, List.mem_cons, List.mem_append, List.not_mem_nil, or_false] at hmem
    rcases hmem with hquote | htext | hquote
    · revert hquote
      decide
    · exact (h _ htext).2.1 rfl
    · revert hquote
      decide

theorem Directive.newline_notMem : '\n' ∉ d.line := by
  have hkeyword : '\n' ∉ d.keyword := by
    intro hmem
    have hlower := List.mem_map_of_mem (f := Char.toLower) hmem
    rw [d.isKeyword] at hlower
    revert hlower
    decide
  intro hmem
  simp only [Directive.line, Directive.argumentText, List.mem_append, List.mem_flatMap] at hmem
  rcases hmem with hindent | hword | hseparator | ⟨argument, hargument, hwritten | hgap⟩
  · exact ne_newline_of_isBlank (d.isIndent _ hindent) rfl
  · exact hkeyword hword
  · exact d.newline_notMem_separator hseparator
  · exact Argument.newline_notMem (d.isArgument _ hargument).1 hwritten
  · exact ne_newline_of_isBlank ((d.isArgument _ hargument).2 _ hgap) rfl

theorem Directive.keyword_length : d.keyword.length = 7 := by
  have hlength := congrArg List.length d.isKeyword
  simpa using hlength

theorem lines_of_noNewline {text : Text} (hne : text ≠ []) (h : '\n' ∉ text) :
    lines text = [text] := by
  have hlast : text.getLast? ≠ some '\n' := fun heq => h (List.mem_of_getLast? heq)
  rw [lines, linesOf_no_sep h, if_neg hne, List.map_singleton, stripLineBreak, if_neg hlast]

/-- Without its indentation a directive begins with the keyword. -/
theorem Directive.dropWhile_line : d.line.dropWhile isWhitespace =
    d.keyword ++ (d.separator ++ d.argumentText) := by
  have hindent : ∀ c ∈ d.indent, isWhitespace c = true :=
    fun c hc => isWhitespace_of_isBlank (d.isIndent c hc)
  rw [Directive.line, List.dropWhile_append_of_pos hindent]
  obtain ⟨first, rest, hkeyword⟩ : ∃ first rest, d.keyword = first :: rest :=
    List.exists_cons_of_length_eq_add_one d.keyword_length
  have hlower : first.toLower = 'i' := by
    have hmap := d.isKeyword
    rw [hkeyword] at hmap
    exact (List.cons.inj hmap).1
  have hfirst : isWhitespace first = false := by
    by_cases hupper : first.isUpper = true
    · obtain ⟨hlow, hhigh⟩ := TextLines.isUpper_iff.mp hupper
      simp [isWhitespace]
      omega
    · rw [TextLines.toLower_of_not_isUpper hupper] at hlower
      rw [hlower]
      rfl
  rw [hkeyword, List.cons_append, List.dropWhile_cons_of_neg (by simp [hfirst])]

theorem stripKeyword_append {keyword other rest : Text} (h : keyword.length = other.length) :
    stripKeyword other (keyword ++ rest) = if keyword = other then some rest else none := by
  unfold stripKeyword
  by_cases heq : keyword = other
  · rw [if_pos heq, ← heq, if_pos (List.isPrefixOf_iff_prefix.mpr (List.prefix_append _ _)),
      List.drop_left]
  · have hnot : other.isPrefixOf (keyword ++ rest) = false := by
      by_contra hbegins
      rw [Bool.not_eq_false, List.isPrefixOf_iff_prefix] at hbegins
      have hbegins := List.prefix_of_prefix_length_le hbegins (List.prefix_append keyword rest) h.ge
      exact heq (hbegins.eq_of_length h.symm).symm
    rw [if_neg heq, hnot]
    rfl

theorem Directive.separator_head (d : Directive) : ∃ c, d.separator.head? = some c ∧
    (isWhitespace c = true ↔ IsBlank c) := by
  obtain ⟨c, rest, hseparator⟩ := List.exists_cons_of_ne_nil d.separator_ne_nil
  refine ⟨c, by rw [hseparator]; rfl, fun hspace => ?_, isWhitespace_of_isBlank⟩
  rcases d.isSeparator with ⟨-, hblank⟩ | ⟨before, after, heq, hblank⟩
  · exact hblank c (hseparator ▸ List.mem_cons_self)
  · rw [hseparator] at heq
    cases before with
    | nil =>
      rw [(List.cons.inj heq).1] at hspace
      cases hspace
    | cons b before =>
      rw [(List.cons.inj heq).1]
      exact hblank b List.mem_cons_self

/-- A directive is seen just in its usual form. -/
theorem Directive.lineRefers_iff : lineRefers d.line = true ↔ d.Usual := by
  have hlength : d.keyword.length = "Include".toList.length := d.keyword_length
  have hlength' : d.keyword.length = "include".toList.length := d.keyword_length
  obtain ⟨c, hhead, hspace⟩ := d.separator_head
  have hfirst : (d.separator ++ d.argumentText).head? = some c := by
    rw [List.head?_append, hhead]
    rfl
  have hstrip : (stripKeyword "Include".toList (d.keyword ++ (d.separator ++ d.argumentText))).or
      (stripKeyword "include".toList (d.keyword ++ (d.separator ++ d.argumentText))) =
      if d.keyword = "Include".toList ∨ d.keyword = "include".toList then
        some (d.separator ++ d.argumentText) else none := by
    rw [stripKeyword_append hlength, stripKeyword_append hlength']
    by_cases hupper : d.keyword = "Include".toList
    · rw [if_pos hupper, Option.some_or, if_pos (Or.inl hupper)]
    · rw [if_neg hupper, Option.none_or]
      by_cases hlower : d.keyword = "include".toList
      · rw [if_pos hlower, if_pos (Or.inr hlower)]
      · rw [if_neg hlower, if_neg (not_or.mpr ⟨hupper, hlower⟩)]
  unfold lineRefers
  simp only [d.dropWhile_line, hstrip]
  by_cases hkeyword : d.keyword = "Include".toList ∨ d.keyword = "include".toList
  · simp only [if_pos hkeyword, hfirst, Option.map_some, Option.some.injEq, Bool.and_eq_true,
      decide_eq_true_eq, List.any_eq_true, hspace]
    constructor
    · exact fun h => ⟨hkeyword, by rw [hhead]; rintro _ ⟨⟩; exact h.1, h.2⟩
    · exact fun h => ⟨h.separator c hhead, h.word⟩
  · simp only [if_neg hkeyword]
    exact iff_of_false nofun fun h => hkeyword h.keyword

/-- In every configuration with the directive it is seen, just when it is in its usual form. -/
theorem Directive.forall_referenced_iff (d : Directive) :
    (∀ config : Text, d.line ∈ lines config → fragmentMayBeReferenced (utf8Bytes config) = true) ↔
      d.Usual := by
  have hreferenced (config : Text) : fragmentMayBeReferenced (utf8Bytes config) =
      (lines config).any lineRefers := by
    rw [fragmentMayBeReferenced, decodeUtf8_utf8Bytes]
  rw [← d.lineRefers_iff]
  constructor
  · intro h
    have hne : d.line ≠ [] := by
      intro hnil
      have hlength := congrArg List.length hnil
      simp [Directive.line, d.keyword_length] at hlength
    have hline := lines_of_noNewline hne d.newline_notMem
    have hseen := h d.line (hline ▸ List.mem_singleton_self _)
    rw [hreferenced, hline] at hseen
    simpa using hseen
  · intro h config hmem
    rw [hreferenced]
    exact List.any_eq_true.mpr ⟨d.line, hmem, h⟩

end Lines

section Patterns

variable {pattern value : Text}

/-- The letters of a pattern of wildcards only. -/
theorem exists_wildcards {bytes : Bytes} (h : bytes ⊆ [63, 42]) :
    ∃ pattern : Text, utf8Bytes pattern = bytes ∧ '[' ∉ pattern := by
  induction bytes with
  | nil => exact ⟨[], rfl, List.not_mem_nil⟩
  | cons byte bytes ih =>
    rw [List.cons_subset] at h
    obtain ⟨pattern, rfl, hplain⟩ := ih h.2
    simp only [List.mem_cons, List.not_mem_nil, or_false] at h
    rcases h.1 with rfl | rfl
    · exact ⟨'?' :: pattern, rfl, by simp [hplain]⟩
    · exact ⟨'*' :: pattern, rfl, by simp [hplain]⟩

/-- The matcher is right on every pattern just for the values without an asterisk. -/
theorem forall_wildcardMatches_iff :
    (∀ pattern : Text, '[' ∉ pattern → (wildcardMatches pattern value = true ↔
      Matches 63 42 (utf8Bytes pattern) (utf8Bytes value))) ↔ '*' ∉ value := by
  constructor
  · intro h hmem
    obtain ⟨bytes, hbytes, hmatch, hmissed⟩ := @exists_missed UInt8 63 42 _ (utf8Bytes value)
      (by decide) (mem_utf8Bytes_of_mem hmem (by decide))
    obtain ⟨pattern, rfl, hplain⟩ := exists_wildcards hbytes
    have hfound := (h pattern hplain).mpr hmatch
    rw [wildcardMatches, if_neg hplain, hmissed] at hfound
    cases hfound
  · intro hvalue pattern hplain
    have hbytes : (42 : UInt8) ∉ utf8Bytes value := fun hmem =>
      hvalue (mem_of_mem_utf8Bytes hmem (by decide))
    rw [wildcardMatches, if_neg hplain]
    exact matches_iff (by decide) hbytes

end Patterns

/-- `INCLUDE config.d/synos-yubikey-manager.inc` -/
def shouting : Directive where
  indent := []
  keyword := "INCLUDE".toList
  separator := [' ']
  arguments := [(.bare MANAGED_RELATIVE_PATH.toList, [])]
  isIndent := nofun
  isKeyword := by decide
  isSeparator := .inl ⟨List.cons_ne_nil _ _, fun c hc => .inl (List.mem_singleton.mp hc)⟩
  isArgument := by
    rintro _ (_ | ⟨_, ⟨⟩⟩)
    refine ⟨⟨fun c hc => ?_, 'c', rfl, by decide⟩, nofun⟩
    have hplain : ∀ c ∈ MANAGED_RELATIVE_PATH.toList,
        ¬ (c = ' ' ∨ c = '\t') ∧ c ≠ '"' ∧ c ≠ '\n' ∧ c ≠ '\r' := by decide
    exact hplain c hc
  apart := nofun

end SecurityKeys.Ssh
