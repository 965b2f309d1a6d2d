import Mathlib.Data.List.DropRight
import Mathlib.Tactic
import SynOSStudio.TextLines.Characters

/-!
# Lines of a text

Cutting a text at its line breaks, of which there are more than the newline, and stripping the
white space around a line. Both follow the string type of Python.
-/

namespace TextLines

abbrev Text := List Char

/-- `str.isspace` -/
def isSpace (c : Char) : Bool :=
  let n := c.toNat
  (9 ≤ n && n ≤ 13) || (0x1c ≤ n && n ≤ 0x20) || (0x2000 ≤ n && n ≤ 0x200a) ||
    [0x85, 0xa0, 0x1680, 0x2028, 0x2029, 0x202f, 0x205f, 0x3000].contains n

/-- The line boundaries of `str.splitlines`. -/
def isLineBreak (c : Char) : Bool :=
  let n := c.toNat
  (10 ≤ n && n ≤ 13) || (0x1c ≤ n && n ≤ 0x1e) || [0x85, 0x2028, 0x2029].contains n

theorem isSpace_of_isLineBreak {c : Char} (h : isLineBreak c = true) : isSpace c = true := by
  simp only [isLineBreak, isSpace, Bool.or_eq_true, Bool.and_eq_true, decide_eq_true_eq,
    List.contains_eq_mem, List.mem_cons, List.not_mem_nil, or_false] at h ⊢
  omega

/-- `str.strip` -/
def strip (text : Text) : Text :=
  (text.dropWhile isSpace).rdropWhile isSpace

/-- `str.splitlines`, with the line that has been read so far. -/
def splitlinesFrom (line : Text) : Text → List Text
  | [] => if line = [] then [] else [line]
  | '\r' :: '\n' :: rest => line :: splitlinesFrom [] rest
  | c :: rest => if isLineBreak c then line :: splitlinesFrom [] rest
      else splitlinesFrom (line ++ [c]) rest

def splitlines (text : Text) : List Text := splitlinesFrom [] text

section Plain

variable {text line rest : Text} {lines : List Text}

theorem strip_of_plain (h : ∀ c ∈ text, isSpace c = false) : strip text = text := by
  have hfront : text.dropWhile isSpace = text := by
    cases text with
    | nil => rfl
    | cons c text => simp [h c List.mem_cons_self]
  rw [strip, hfront, List.rdropWhile_eq_self_iff]
  intro hne
  simp [h _ (List.getLast_mem hne)]

theorem splitlinesFrom_cons {c : Char} (h : isLineBreak c = false) :
    splitlinesFrom line (c :: rest) = splitlinesFrom (line ++ [c]) rest := by
  rw [splitlinesFrom]
  · rw [if_neg (by simp [h])]
  · rintro tail rfl
    simp [isLineBreak] at h

theorem splitlinesFrom_append (h : ∀ c ∈ text, isLineBreak c = false) :
    splitlinesFrom line (text ++ rest) = splitlinesFrom (line ++ text) rest := by
  induction text generalizing line with
  | nil => simp
  | cons c text ih =>
    rw [List.cons_append, splitlinesFrom_cons (h c List.mem_cons_self),
      ih fun d hd => h d (List.mem_cons_of_mem c hd)]
    simp

theorem splitlinesFrom_newline :
    splitlinesFrom line ('\n' :: rest) = line :: splitlinesFrom [] rest := by
  rw [splitlinesFrom]
  · rw [if_pos (by decide)]
  · simp

theorem splitlinesFrom_of_break {c : Char} (h : isLineBreak c = true)
    (hcrlf : ∀ tail, c = '\r' → rest ≠ '\n' :: tail) :
    splitlinesFrom line (c :: rest) = line :: splitlinesFrom [] rest := by
  rw [splitlinesFrom]
  · rw [if_pos h]
  · exact hcrlf

/-- The line before a break is the first one, and the lines behind it are not changed. -/
theorem splitlinesFrom_break {c : Char} (h : isLineBreak c = true) :
    ∃ others, splitlinesFrom line (c :: rest) = line :: others ∧
      others ⊆ splitlinesFrom [] rest := by
  by_cases hcrlf : ∃ tail, c = '\r' ∧ rest = '\n' :: tail
  · obtain ⟨tail, rfl, rfl⟩ := hcrlf
    refine ⟨splitlinesFrom [] tail, by rw [splitlinesFrom], ?_⟩
    rw [splitlinesFrom_newline]
    exact List.subset_cons_self _ _
  · exact ⟨splitlinesFrom [] rest,
      splitlinesFrom_of_break h fun tail hc hrest => hcrlf ⟨tail, hc, hrest⟩,
      List.Subset.refl _⟩

/-- A text that ends in a newline is split on its own. -/
theorem splitlinesFrom_append_newline :
    splitlinesFrom line (text ++ '\n' :: rest) =
      splitlinesFrom line (text ++ ['\n']) ++ splitlines rest := by
  fun_induction splitlinesFrom line text with
  | case1 | case2 => simp [splitlinesFrom_newline, splitlines, splitlinesFrom]
  | case3 line tail ih => simp [splitlinesFrom, ih]
  | case4 line c tail hcrlf hbreak ih =>
    cases tail with
    | nil =>
      by_cases hc : c = '\r'
      · simp [hc, splitlinesFrom, splitlines]
      · simp only [List.cons_append, List.nil_append]
        rw [splitlinesFrom_of_break hbreak fun _ h => absurd h hc,
          splitlinesFrom_of_break hbreak fun _ h => absurd h hc, List.cons_append]
        exact congrArg (line :: ·) ih
    | cons d tail =>
      have hnot (more : Text) : ∀ left, c = '\r' → d :: tail ++ more ≠ '\n' :: left := by
        rintro left hc heq
        exact hcrlf tail hc (by rw [(List.cons.inj heq).1])
      calc splitlinesFrom line (c :: (d :: tail ++ '\n' :: rest))
          = line :: splitlinesFrom [] (d :: tail ++ '\n' :: rest) :=
            splitlinesFrom_of_break hbreak (hnot _)
        _ = line :: (splitlinesFrom [] (d :: tail ++ ['\n']) ++ splitlines rest) := by rw [ih]
        _ = splitlinesFrom line (c :: (d :: tail ++ ['\n'])) ++ splitlines rest := by
            rw [splitlinesFrom_of_break hbreak (hnot _)]
            rfl
  | case5 line c tail hcrlf hbreak ih =>
    have hplain := Bool.eq_false_of_not_eq_true hbreak
    rw [List.cons_append, List.cons_append, splitlinesFrom_cons hplain,
      splitlinesFrom_cons hplain, ih]

theorem strip_of_ends {first last : Char} (hfirst : isSpace first = false)
    (hlast : isSpace last = false) :
    strip (first :: (text ++ [last])) = first :: (text ++ [last]) := by
  rw [strip, List.dropWhile_cons_of_neg (by simp [hfirst]), ← List.cons_append,
    List.rdropWhile_concat_neg _ _ _ (by simp [hlast])]

/-- Lines without a break of their own are read back. -/
theorem splitlines_flatMap (h : ∀ line ∈ lines, ∀ c ∈ line, isLineBreak c = false) :
    splitlines (lines.flatMap fun line => line ++ ['\n']) = lines := by
  induction lines with
  | nil => rfl
  | cons line lines ih =>
    rw [splitlines, List.flatMap_cons, List.append_assoc,
      splitlinesFrom_append (h line List.mem_cons_self), List.nil_append, List.cons_append,
      splitlinesFrom_newline, List.nil_append]
    rw [splitlines] at ih
    rw [ih fun other hother => h other (List.mem_cons_of_mem line hother)]

end Plain

end TextLines
