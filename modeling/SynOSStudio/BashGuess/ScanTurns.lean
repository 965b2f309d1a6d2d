import SynOSStudio.BashGuess.Shell

/-!
# The scanner of a line, one character at a time

The lookahead of the scanner only counts: a double operator does what its two characters do one
after the other. The tokens that it finishes are not empty and follow one another, and a token
keeps the text that it has started with.
-/

namespace BashGuess

namespace Scan

variable {s : Scan} {c : Char} {text rest : Text}

@[simp] theorem finishToken_index {stop : ℕ} : (s.finishToken stop).index = s.index := by
  unfold finishToken
  split
  · rfl
  · rfl

@[simp] theorem finishToken_tokenStart {stop : ℕ} : (s.finishToken stop).tokenStart = none := by
  unfold finishToken
  split
  · assumption
  · rfl

@[simp] theorem finishToken_quote {stop : ℕ} : (s.finishToken stop).quote = s.quote := by
  unfold finishToken
  split
  · rfl
  · rfl

@[simp] theorem finishToken_escaped {stop : ℕ} : (s.finishToken stop).escaped = s.escaped := by
  unfold finishToken
  split
  · rfl
  · rfl

@[simp] theorem finishToken_commandStart {stop : ℕ} :
    (s.finishToken stop).commandStart = s.commandStart := by
  unfold finishToken
  split
  · rfl
  · rfl

/-- A turn that looks at one character. -/
def turn (s : Scan) (c : Char) : Scan := (s.step c none).1

theorem isDoubleOperator_none : isDoubleOperator c none = false := by
  simp [isDoubleOperator]

theorem isDoubleOperator_start {d : Char} (h : isDoubleOperator c (some d) = true) :
    isOperatorStart c = true ∧ isOperatorStart d = true := by
  simp only [isDoubleOperator, List.any_cons, List.any_nil, Bool.or_false, Bool.or_eq_true,
    Bool.and_eq_true, beq_iff_eq, Option.some.injEq] at h
  rcases h with ⟨rfl, rfl⟩ | ⟨rfl, rfl⟩ | ⟨rfl, rfl⟩ | ⟨rfl, rfl⟩ | ⟨rfl, rfl⟩
  all_goals exact ⟨rfl, rfl⟩

theorem isOperatorStart_cases (h : isOperatorStart c = true) :
    c = '|' ∨ c = '&' ∨ c = ';' ∨ c = '<' ∨ c = '>' := by
  simpa [isOperatorStart, or_assoc] using h

/-- Outside quotes an operator ends the token. -/
theorem step_operator {next : Option Char} (hquote : s.quote = none) (hescaped : s.escaped = false)
    (hstart : isOperatorStart c = true) : s.step c next =
      if isDoubleOperator c next then (s.operator 2, true) else (s.operator 1, false) := by
  rcases isOperatorStart_cases hstart with rfl | rfl | rfl | rfl | rfl
  all_goals simp [step, hquote, hescaped, isAscii, isAsciiWhitespace, isOperatorStart]

theorem step_eq_turn {next : Option Char} (h : (s.step c next).2 = false) :
    s.step c next = (s.turn c, false) := by
  refine Prod.ext ?_ h
  unfold turn step at *
  split_ifs at h ⊢ <;> first | rfl | simp_all [isDoubleOperator_none]

theorem step_double {d : Char} (h : (s.step c (some d)).2 = true) :
    s.quote = none ∧ s.escaped = false ∧ isDoubleOperator c (some d) = true := by
  unfold step at h
  split_ifs at h with hascii hescaped hslash hquoted hsame hquote hspace hstart hdouble
  exact ⟨by simpa using hquoted, by simpa using hescaped, hdouble⟩

@[simp] theorem operator_operator {m n : ℕ} :
    (s.operator m).operator n = s.operator (m + n) := by
  cases hstart : s.tokenStart with
  | none => simp [operator, finishToken, hstart, Nat.add_assoc]
  | some start => simp [operator, finishToken, hstart, Nat.add_assoc]

@[simp] theorem operator_quote {n : ℕ} : (s.operator n).quote = s.quote := by
  simp [operator]

@[simp] theorem operator_escaped {n : ℕ} : (s.operator n).escaped = s.escaped := by
  simp [operator]

/-- A double operator does what its two characters do. -/
theorem scan_eq_foldl : scan text s = text.foldl turn s := by
  fun_induction scan text s with
  | case1 => rfl
  | case2 => rfl
  | case3 c d rest s hdouble ih =>
    obtain ⟨hquote, hescaped, hoperator⟩ := step_double hdouble
    obtain ⟨hc, hd⟩ := isDoubleOperator_start hoperator
    have hstep : s.step c (some d) =
        if isDoubleOperator c (some d) then (s.operator 2, true) else (s.operator 1, false) :=
      step_operator hquote hescaped hc
    rw [if_pos hoperator] at hstep
    have hfirst : s.turn c = s.operator 1 := by
      rw [turn, step_operator hquote hescaped hc, isDoubleOperator_none]
      rfl
    have hsecond : (s.operator 1).turn d = s.operator 2 := by
      rw [turn, step_operator (by simpa using hquote) (by simpa using hescaped) hd,
        isDoubleOperator_none]
      exact operator_operator
    rw [ih, hstep, List.foldl_cons, List.foldl_cons, hfirst, hsecond]
  | case4 c d rest s hsingle ih =>
    rw [ih, step_eq_turn (Bool.eq_false_of_not_eq_true hsingle), List.foldl_cons]
    rfl

/-- A turn goes on with the token, or it is at its end. -/
structure Grows (s s' : Scan) : Prop where
  tokens : s'.tokens = s.tokens
  value : s.value <+: s'.value
  tokenStart : s'.tokenStart = s.tokenStart ∨ s'.tokenStart = some (s.tokenStart.getD s.index)
  index : s'.index = s.index + 1

theorem turn_cases (s : Scan) (c : Char) : Grows s (s.turn c) ∨
    ∃ commandStart, s.turn c = { s.finishToken s.index with
      commandStart := commandStart, index := s.index + 1 } := by
  unfold turn step
  split_ifs with hascii hescaped hslash hquoted hsame hquote hspace hstart hdouble
  all_goals first
    | exact .inl ⟨rfl, List.prefix_append _ _, .inr rfl, rfl⟩
    | exact .inl ⟨rfl, List.prefix_append _ _, .inl rfl, rfl⟩
    | exact .inl ⟨rfl, List.prefix_rfl, .inr rfl, rfl⟩
    | exact .inl ⟨rfl, List.prefix_rfl, .inl rfl, rfl⟩
    | skip
  · exact .inr ⟨(s.finishToken s.index).commandStart, by rw [advance, finishToken_index]⟩
  · cases (isDoubleOperator_none (c := c)).symm.trans hdouble
  · exact .inr ⟨(s.finishToken s.index).tokens.length, by rw [operator, finishToken_index]⟩

/-- The tokens are not empty, and each one starts where the one before it has ended. -/
structure Ordered (s : Scan) : Prop where
  nonempty : ∀ token ∈ s.tokens, token.start < token.stop
  disjoint : s.tokens.Pairwise fun first second => first.stop ≤ second.start
  within : ∀ token ∈ s.tokens, token.stop ≤ s.index
  opened : ∀ start ∈ s.tokenStart, start < s.index ∧ ∀ token ∈ s.tokens, token.stop ≤ start

theorem Ordered.finishToken (h : s.Ordered) : (s.finishToken s.index).Ordered := by
  unfold Scan.finishToken
  cases hstart : s.tokenStart with
  | none => exact h
  | some start =>
    obtain ⟨hbefore, hafter⟩ := h.opened start hstart
    refine ⟨?_, ?_, ?_, nofun⟩
    · intro token htoken
      rcases List.mem_append.mp htoken with htoken | htoken
      · exact h.nonempty token htoken
      · rw [List.mem_singleton.mp htoken]
        exact hbefore
    · refine List.pairwise_append.mpr ⟨h.disjoint, List.pairwise_singleton _ _, ?_⟩
      intro first hfirst second hsecond
      rw [List.mem_singleton.mp hsecond]
      exact hafter first hfirst
    · intro token htoken
      rcases List.mem_append.mp htoken with htoken | htoken
      · exact h.within token htoken
      · rw [List.mem_singleton.mp htoken]

theorem Ordered.turn (h : s.Ordered) : (s.turn c).Ordered := by
  rcases turn_cases s c with hgrows | ⟨commandStart, hturn⟩
  · have hindex := hgrows.index
    refine ⟨?_, ?_, ?_, ?_⟩
    · rw [hgrows.tokens]
      exact h.nonempty
    · rw [hgrows.tokens]
      exact h.disjoint
    · rw [hgrows.tokens]
      exact fun token htoken => (h.within token htoken).trans (by omega)
    · intro start hstart
      rw [hgrows.tokens]
      rcases hgrows.tokenStart with hsame | hopened
      · obtain ⟨hbefore, hafter⟩ := h.opened start (hsame ▸ hstart)
        exact ⟨by omega, hafter⟩
      · rw [hopened, Option.mem_some_iff] at hstart
        cases hbefore : s.tokenStart with
        | none =>
          rw [hbefore, Option.getD_none] at hstart
          exact ⟨by omega, fun token htoken => hstart ▸ h.within token htoken⟩
        | some first =>
          rw [hbefore, Option.getD_some] at hstart
          obtain ⟨hfirst, hafter⟩ := h.opened first hbefore
          exact ⟨by omega, fun token htoken => hstart ▸ hafter token htoken⟩
  · have hfinished := h.finishToken
    rw [hturn]
    refine ⟨hfinished.nonempty, hfinished.disjoint, fun token htoken => ?_, ?_⟩
    · have hwithin := hfinished.within token htoken
      rw [finishToken_index] at hwithin
      exact Nat.le_succ_of_le hwithin
    · intro start hstart
      cases finishToken_tokenStart.symm.trans hstart

theorem ordered_start : Scan.start.Ordered :=
  ⟨nofun, .nil, nofun, nofun⟩

theorem Ordered.foldl (h : s.Ordered) : (text.foldl Scan.turn s).Ordered := by
  induction text generalizing s with
  | nil => exact h
  | cons c text ih => exact ih h.turn

theorem Ordered.finish (h : s.Ordered) : s.finish.Ordered := by
  unfold Scan.finish
  split_ifs
  · exact Ordered.finishToken (s := s.push '\\') ⟨h.nonempty, h.disjoint, h.within, h.opened⟩
  · exact h.finishToken

/-- The token with the given number starts with the given text, and may go on. -/
def Holds (i : ℕ) (value : Text) (s : Scan) : Prop :=
  (∃ token, s.tokens[i]? = some token ∧ value <+: token.value) ∨
    s.tokens.length = i ∧ s.tokenStart.isSome = true ∧ value <+: s.value

theorem Holds.finishToken {i stop : ℕ} {value : Text} (h : s.Holds i value) :
    ∃ token, (s.finishToken stop).tokens[i]? = some token ∧ value <+: token.value := by
  unfold Scan.finishToken
  rcases h with ⟨token, htoken, hvalue⟩ | ⟨hlength, hstart, hvalue⟩
  · refine ⟨token, ?_, hvalue⟩
    split
    · exact htoken
    · have hlt := (List.getElem?_eq_some_iff.mp htoken).1
      rwa [List.getElem?_append_left hlt]
  · obtain ⟨start, hstart⟩ := Option.isSome_iff_exists.mp hstart
    rw [hstart]
    exact ⟨⟨s.value, start, stop⟩, by simp [← hlength], hvalue⟩

theorem Holds.turn {i : ℕ} {value : Text} (h : s.Holds i value) : (s.turn c).Holds i value := by
  rcases turn_cases s c with hgrows | ⟨commandStart, hturn⟩
  · rcases h with ⟨token, htoken, hvalue⟩ | ⟨hlength, hstart, hvalue⟩
    · exact .inl ⟨token, by rw [hgrows.tokens]; exact htoken, hvalue⟩
    · refine .inr ⟨by rw [hgrows.tokens]; exact hlength, ?_, hvalue.trans hgrows.value⟩
      rcases hgrows.tokenStart with hsame | hopened
      · rw [hsame]
        exact hstart
      · rw [hopened]
        rfl
  · rw [hturn]
    exact .inl h.finishToken

theorem Holds.finished {i : ℕ} {value : Text} (h : s.Holds i value) (text : Text) :
    ∃ token, (scan text s).finish.tokens[i]? = some token ∧ value <+: token.value := by
  rw [scan_eq_foldl]
  induction text generalizing s with
  | nil =>
    rw [List.foldl_nil, finish]
    split_ifs
    · refine Holds.finishToken (s := s.push '\\') ?_
      exact h.imp id fun ⟨hlength, hstart, hvalue⟩ =>
        ⟨hlength, hstart, hvalue.trans (List.prefix_append _ _)⟩
    · exact h.finishToken
  | cons c text ih => exact ih h.turn

end Scan

end BashGuess
