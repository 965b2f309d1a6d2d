import SynOSStudio.Installer.PartedOutput

/-!
# Printed tables

The machine format in which `parted` prints the rows of a table, and how such a row is read back.
A line break in a field cuts its row: what stands before the break is read as a row of its own,
and nothing behind it is read at all.
-/

namespace Installer

open TextLines

section Format

def escapeChar (c : Char) : Text := if c = ':' ∨ c = '\\' then ['\\', c] else [c]

def escapeField (field : Text) : Text := field.flatMap escapeChar

/-- The fields of a row with colons between them. -/
def joinFields (first : Text) (rest : List Text) : Text :=
  escapeField first ++ rest.flatMap fun field => ':' :: escapeField field

def printRow (first : Text) (rest : List Text) : Text := joinFields first rest ++ [';', '\n']

@[simp] theorem escapeField_nil : escapeField [] = [] := rfl

@[simp] theorem escapeField_cons (c : Char) (field : Text) :
    escapeField (c :: field) = escapeChar c ++ escapeField field := by
  simp [escapeField]

@[simp] theorem escapeField_append (front back : Text) :
    escapeField (front ++ back) = escapeField front ++ escapeField back := by
  simp [escapeField]

theorem joinFields_append (first : Text) (front back : List Text) :
    joinFields first (front ++ back) =
      joinFields first front ++ back.flatMap fun field => ':' :: escapeField field := by
  simp [joinFields]

theorem escapeChar_plain {c : Char} (h : ¬ (c = ':' ∨ c = '\\')) : escapeChar c = [c] := if_neg h

theorem not_space_of_special {c : Char} (h : c = ':' ∨ c = '\\') : isSpace c = false := by
  rcases h with rfl | rfl <;> decide

theorem not_break_of_not_space {c : Char} (h : isSpace c = false) : isLineBreak c = false := by
  by_contra hbreak
  rw [isSpace_of_isLineBreak (by simpa using hbreak)] at h
  cases h

def Unbroken (text : Text) : Prop := ∀ c ∈ text, isLineBreak c = false

instance (text : Text) : Decidable (Unbroken text) := inferInstanceAs (Decidable (∀ _ ∈ _, _))

theorem Unbroken.append {front back : Text} (hfront : Unbroken front) (hback : Unbroken back) :
    Unbroken (front ++ back) :=
  fun c hc => (List.mem_append.mp hc).elim (hfront c) (hback c)

theorem unbroken_escapeField {field : Text} (h : Unbroken field) :
    Unbroken (escapeField field) := by
  intro c hc
  obtain ⟨d, hd, hmem⟩ := List.mem_flatMap.mp hc
  unfold escapeChar at hmem
  split at hmem
  · rcases List.mem_pair.mp hmem with rfl | rfl
    · decide
    · exact h c hd
  · exact List.mem_singleton.mp hmem ▸ h d hd

theorem unbroken_joinFields {first : Text} {rest : List Text} (hfirst : Unbroken first)
    (hrest : ∀ field ∈ rest, Unbroken field) : Unbroken (joinFields first rest) := by
  refine (unbroken_escapeField hfirst).append fun c hc => ?_
  obtain ⟨field, hfield, hmem⟩ := List.mem_flatMap.mp hc
  rcases List.mem_cons.mp hmem with rfl | hmem
  · decide
  · exact unbroken_escapeField (hrest field hfield) c hmem

theorem splitFieldsFrom_escapeField {current field rest : Text} :
    splitFieldsFrom current false (escapeField field ++ rest) =
      splitFieldsFrom (current ++ field) false rest := by
  induction field generalizing current with
  | nil => simp
  | cons c field ih =>
    have hchar : splitFieldsFrom current false (escapeChar c ++ (escapeField field ++ rest)) =
        splitFieldsFrom (current ++ [c]) false (escapeField field ++ rest) := by
      unfold escapeChar
      split
      · simp [splitFieldsFrom]
      · rename_i hplain
        rw [not_or] at hplain
        simp [splitFieldsFrom, hplain.1, hplain.2]
    rw [escapeField_cons, List.append_assoc, hchar, ih, List.append_assoc, List.singleton_append]

/-- The fields of a row are read back, whatever they hold. -/
theorem splitPartedFields_joinFields (first : Text) (rest : List Text) :
    splitPartedFields (joinFields first rest) = first :: rest := by
  have hfrom (current : Text) : splitFieldsFrom current false
      (rest.flatMap fun field => ':' :: escapeField field) = current :: rest := by
    induction rest generalizing current with
    | nil => rfl
    | cons field rest ih =>
      rw [List.flatMap_cons, List.cons_append, splitFieldsFrom, if_neg Bool.false_ne_true,
        if_neg (by decide), if_pos rfl, splitFieldsFrom_escapeField, List.nil_append, ih]
  rw [splitPartedFields, joinFields, splitFieldsFrom_escapeField, List.nil_append, hfrom]

end Format

section Pieces

/-- A piece of a printed row that holds at most this many separators. -/
inductive Piece : ℕ → Text → Prop
  | nil {n} : Piece n []
  | plain {n c text} : c ≠ ':' → c ≠ '\\' → Piece n text → Piece n (c :: text)
  | escaped {n c text} : c = ':' ∨ c = '\\' → Piece n text → Piece n ('\\' :: c :: text)
  | separator {n text} : Piece n text → Piece (n + 1) (':' :: text)

variable {m n : ℕ} {text line : Text}

theorem Piece.mono (h : Piece m text) (hle : m ≤ n) : Piece n text := by
  induction h generalizing n with
  | nil => exact .nil
  | plain hcolon hslash _ ih => exact .plain hcolon hslash (ih hle)
  | escaped hspecial _ ih => exact .escaped hspecial (ih hle)
  | @separator k _ _ ih =>
    obtain ⟨n, rfl⟩ : ∃ n', n = n' + 1 := ⟨n - 1, by omega⟩
    exact .separator (ih (by omega))

theorem Piece.append (h : Piece m line) (htext : Piece n text) : Piece (m + n) (line ++ text) := by
  induction h with
  | nil => exact htext.mono (by omega)
  | plain hcolon hslash _ ih => exact .plain hcolon hslash ih
  | escaped hspecial _ ih => exact .escaped hspecial ih
  | @separator k _ _ ih =>
    rw [show k + 1 + n = k + n + 1 by omega]
    exact .separator ih

theorem piece_escapeField (field : Text) : Piece 0 (escapeField field) := by
  induction field with
  | nil => exact .nil
  | cons c field ih =>
    rw [escapeField_cons]
    unfold escapeChar
    split
    · rename_i hspecial
      exact .escaped hspecial ih
    · rename_i hplain
      rw [not_or] at hplain
      exact .plain hplain.1 hplain.2 ih

theorem piece_fields (fields : List Text) :
    Piece fields.length (fields.flatMap fun field => ':' :: escapeField field) := by
  induction fields with
  | nil => exact .nil
  | cons field fields ih =>
    rw [List.flatMap_cons, List.cons_append, List.length_cons]
    exact .separator (by simpa using (piece_escapeField field).append ih)

/-- A line has no more separators than the piece that it is cut from: no break stands between an
escape and its character. -/
theorem Piece.of_mem_lines (h : Piece n text) (hline : Piece m line) :
    ∀ other ∈ splitlinesFrom line text, Piece (m + n) other := by
  have hbreak {k : ℕ} {c : Char} {tail line : Text} {m : ℕ} (hc : isLineBreak c = true)
      (hline : Piece m line) (ih : ∀ other ∈ splitlinesFrom [] tail, Piece (0 + k) other) :
      ∀ other ∈ splitlinesFrom line (c :: tail), Piece (m + k) other := by
    obtain ⟨others, heq, hsub⟩ := @splitlinesFrom_break line tail c hc
    rw [heq]
    intro other hother
    rcases List.mem_cons.mp hother with rfl | hother
    · exact hline.mono (by omega)
    · exact (ih other (hsub hother)).mono (by omega)
  induction h generalizing m line with
  | @nil k =>
    intro other hother
    rw [splitlinesFrom] at hother
    split at hother
    · cases hother
    · exact List.mem_singleton.mp hother ▸ hline.mono (by omega)
  | @plain k c tail hcolon hslash _ ih =>
    by_cases hc : isLineBreak c = true
    · exact hbreak hc hline (ih .nil)
    · rw [splitlinesFrom_cons (by simpa using hc)]
      exact ih (by simpa using hline.append (.plain hcolon hslash (.nil (n := 0))))
  | @escaped k c tail hspecial _ ih =>
    rw [splitlinesFrom_cons (by decide),
      splitlinesFrom_cons (not_break_of_not_space (not_space_of_special hspecial))]
    exact ih (by simpa using hline.append (.escaped hspecial (.nil (n := 0))))
  | @separator k tail _ ih =>
    rw [splitlinesFrom_cons (by decide)]
    intro other hother
    have hpiece := ih (hline.append (.separator (.nil (n := 0)))) other hother
    exact hpiece.mono (by omega)

theorem Piece.length_fields (h : Piece n text) (current : Text) :
    (splitFieldsFrom current false text).length ≤ n + 1 := by
  induction h generalizing current with
  | nil => simp [splitFieldsFrom]
  | plain hcolon hslash _ ih =>
    rw [splitFieldsFrom, if_neg Bool.false_ne_true, if_neg hslash, if_neg hcolon]
    exact ih _
  | escaped _ _ ih => simpa [splitFieldsFrom] using ih _
  | separator _ ih => simpa [splitFieldsFrom] using ih []

theorem length_fields_le (current : Text) (escaped : Bool) (front back : Text) :
    (splitFieldsFrom current escaped front).length ≤
      (splitFieldsFrom current escaped (front ++ back)).length := by
  have hpos (current : Text) (escaped : Bool) :
      1 ≤ (splitFieldsFrom current escaped back).length := by
    induction back generalizing current escaped with
    | nil => simp [splitFieldsFrom]
    | cons c back ih =>
      rw [splitFieldsFrom]
      split_ifs
      · exact ih _ _
      · exact ih _ _
      · simp
      · exact ih _ _
  induction front generalizing current escaped with
  | nil => exact hpos current escaped
  | cons c front ih =>
    rw [List.cons_append, splitFieldsFrom, splitFieldsFrom]
    split_ifs
    · exact ih _ _
    · exact ih _ _
    · simpa using ih [] false
    · exact ih _ _

theorem Piece.dropSpaces (h : Piece n text) : Piece n (text.dropWhile isSpace) := by
  induction h with
  | nil => exact .nil
  | @plain _ c _ hcolon hslash htail ih =>
    by_cases hc : isSpace c = true
    · rwa [List.dropWhile_cons_of_pos hc]
    · rw [List.dropWhile_cons_of_neg hc]
      exact .plain hcolon hslash htail
  | escaped hspecial htail =>
    rw [List.dropWhile_cons_of_neg (by decide)]
    exact .escaped hspecial htail
  | separator htail =>
    rw [List.dropWhile_cons_of_neg (by decide)]
    exact .separator htail

variable {casing : Casing} {numerals : Numerals}

/-- A line that adds nothing to what is read. -/
def Quiet (casing : Casing) (numerals : Numerals) (line : Text) : Prop :=
  readLine casing numerals line = .ok .skip ∨ readLine casing numerals line = .ok .header

/-- A line with at most two separators is no row. -/
theorem Piece.quiet (h : Piece 2 line) : Quiet casing numerals line := by
  have hfields : (splitPartedFields (strip line).dropLast).length ≤ 3 := by
    obtain ⟨spaces, hspaces⟩ :=
      @List.rdropWhile_prefix _ isSpace (line.dropWhile isSpace)
    obtain ⟨last, hlast⟩ := List.dropLast_prefix (strip line)
    calc (splitPartedFields (strip line).dropLast).length
        ≤ (splitPartedFields (strip line)).length := by
          have hle := length_fields_le [] false (strip line).dropLast last
          rwa [hlast] at hle
      _ ≤ (splitPartedFields (line.dropWhile isSpace)).length := by
          have hle := length_fields_le [] false (strip line) spaces
          rwa [strip, hspaces] at hle
      _ ≤ 3 := h.dropSpaces.length_fields []
  have hskip : readFields casing numerals (splitPartedFields (strip line).dropLast) =
      .ok .skip := by
    generalize splitPartedFields (strip line).dropLast = fields at hfields
    obtain _ | ⟨_, _ | ⟨_, _ | ⟨_, _ | ⟨_, rest⟩⟩⟩⟩ := fields
    · rfl
    · rfl
    · rfl
    · rfl
    · simp only [List.length_cons] at hfields
      omega
  simp only [Quiet, readLine, hskip]
  split_ifs <;> simp [pure, Except.pure]

end Pieces

section FirstLines

/-- What the first line of a row has of the fields in which breaks may stand. A line that is cut
is a row only if a semicolon happens to stand before the break. -/
def firstLineFields : List Text → Option (List Text)
  | [] => some []
  | field :: rest =>
    if Unbroken field then (firstLineFields rest).map (field :: ·)
    else
      let cut := (field.takeWhile fun c => !isLineBreak c).rdropWhile isSpace
      if cut.getLast? = some ';' then some [cut.dropLast] else none

theorem firstLineFields_unbroken {fields : List Text} (h : ∀ field ∈ fields, Unbroken field) :
    firstLineFields fields = some fields := by
  induction fields with
  | nil => rfl
  | cons field fields ih =>
    rw [firstLineFields, if_pos (h field List.mem_cons_self),
      ih fun other hother => h other (List.mem_cons_of_mem field hother), Option.map_some]

theorem firstLineFields_cut {whole later : List Text} {front back : Text} {c : Char}
    (hwhole : ∀ field ∈ whole, Unbroken field) (hfront : Unbroken front)
    (hc : isLineBreak c = true) :
    firstLineFields (whole ++ (front ++ c :: back) :: later) =
      if (front.rdropWhile isSpace).getLast? = some ';' then
        some (whole ++ [(front.rdropWhile isSpace).dropLast])
      else none := by
  induction whole with
  | nil =>
    have hbroken : ¬ Unbroken (front ++ c :: back) := fun h => by
      have := h c (by simp)
      rw [hc] at this
      cases this
    have htake : (front ++ c :: back).takeWhile (fun d => !isLineBreak d) = front := by
      rw [List.takeWhile_append_of_pos fun d hd => by simp [hfront d hd],
        List.takeWhile_cons_of_neg (by simp [hc]), List.append_nil]
    rw [List.nil_append, firstLineFields, if_neg hbroken, htake]
    rfl
  | cons field whole ih =>
    rw [List.cons_append, firstLineFields, if_pos (hwhole field List.mem_cons_self),
      ih fun other hother => hwhole other (List.mem_cons_of_mem field hother)]
    split_ifs <;> rfl

/-- The first break in a list of fields. -/
theorem exists_cut {fields : List Text} (h : ¬ ∀ field ∈ fields, Unbroken field) :
    ∃ whole front c back later, fields = whole ++ (front ++ c :: back) :: later ∧
      (∀ field ∈ whole, Unbroken field) ∧ Unbroken front ∧ isLineBreak c = true := by
  induction fields with
  | nil => exact absurd (by simp) h
  | cons field fields ih =>
    by_cases hfield : Unbroken field
    · obtain ⟨whole, front, c, back, later, rfl, hwhole, hcut⟩ := ih fun hall =>
        h fun other hother => (List.mem_cons.mp hother).elim (· ▸ hfield) (hall other)
      exact ⟨field :: whole, front, c, back, later, rfl,
        fun other hother => (List.mem_cons.mp hother).elim (· ▸ hfield) (hwhole other), hcut⟩
    · have hne : field.dropWhile (fun c => !isLineBreak c) ≠ [] := fun hnil =>
        hfield fun c hc => by simpa using List.dropWhile_eq_nil_iff.mp hnil c hc
      obtain ⟨c, back, hdrop⟩ := List.exists_cons_of_ne_nil hne
      refine ⟨[], field.takeWhile fun c => !isLineBreak c, c, back, fields, ?_, by simp,
        fun d hd => by simpa using List.mem_takeWhile_imp hd, ?_⟩
      · rw [← hdrop, List.takeWhile_append_dropWhile, List.nil_append]
      · have hhead := List.head_dropWhile_not (fun c => !isLineBreak c) hne
        simpa [hdrop] using hhead

variable {casing : Casing} {numerals : Numerals} {head : Char} {first : Text} {rest : List Text}

theorem colon_mem_joinFields (hrest : rest ≠ []) : ':' ∈ joinFields first rest := by
  obtain ⟨field, rest, rfl⟩ := List.exists_cons_of_ne_nil hrest
  simp [joinFields]

theorem joinFields_head (first : Text) (rest : List Text) (hhead : isSpace head = false) :
    ∃ c tail, isSpace c = false ∧ joinFields (head :: first) rest = c :: tail := by
  rw [joinFields, escapeField_cons]
  unfold escapeChar
  split
  · exact ⟨'\\', _, by decide, rfl⟩
  · exact ⟨head, _, hhead, rfl⟩

theorem strip_joinFields (hhead : isSpace head = false) :
    strip (joinFields (head :: first) rest ++ [';']) =
      joinFields (head :: first) rest ++ [';'] := by
  obtain ⟨c, tail, hc, heq⟩ := joinFields_head first rest hhead
  rw [heq]
  exact strip_of_ends hc (by decide)

/-- A row on a line of its own is read as its fields. -/
theorem readLine_joinFields (hhead : isSpace head = false) (hrest : rest ≠ []) :
    readLine casing numerals (joinFields (head :: first) rest ++ [';']) =
      readFields casing numerals ((head :: first) :: rest) := by
  have hheader : joinFields (head :: first) rest ++ [';'] ≠ "BYT;".toList := fun heq => by
    have hcolon : ':' ∈ joinFields (head :: first) rest ++ [';'] :=
      List.mem_append_left _ (colon_mem_joinFields hrest)
    rw [heq] at hcolon
    simp at hcolon
  simp only [readLine, strip_joinFields hhead]
  rw [if_neg (by simp), if_neg hheader, if_neg (by simp), List.dropLast_concat,
    splitPartedFields_joinFields]

theorem rdropWhile_escapeField (before field : Text) :
    (before ++ ':' :: escapeField field).rdropWhile isSpace =
      before ++ ':' :: escapeField (field.rdropWhile isSpace) := by
  induction field using List.reverseRecOn with
  | nil => exact List.rdropWhile_concat_neg _ _ _ (by decide)
  | append_singleton field c ih =>
    by_cases hc : isSpace c = true
    · have hplain : ¬ (c = ':' ∨ c = '\\') := fun hspecial => by
        rw [not_space_of_special hspecial] at hc
        cases hc
      rw [List.rdropWhile_concat_pos _ _ _ hc, ← ih, escapeField_append, escapeField_cons,
        escapeChar_plain hplain, escapeField_nil, List.append_nil, ← List.cons_append,
        ← List.append_assoc, List.rdropWhile_concat_pos _ _ _ hc]
    · rw [List.rdropWhile_concat_neg _ _ _ hc, List.rdropWhile_eq_self_iff]
      intro hne
      have hlast : (before ++ ':' :: escapeField (field ++ [c])).getLast hne = c := by
        simp only [escapeField_append, escapeField_cons, escapeField_nil, List.append_nil]
        unfold escapeChar
        split <;> simp
      rwa [hlast]

theorem readLine_of_not_semicolon {line : Text} (h : (strip line).getLast? ≠ some ';') :
    readLine casing numerals line = .ok .skip := by
  simp only [readLine]
  split_ifs with hempty hheader
  · rfl
  · rw [hheader] at h
    exact absurd rfl h
  · rfl

theorem getLast_escapeField (before field : Text) :
    (before ++ ':' :: escapeField field).getLast? = some (field.getLast?.getD ':') := by
  induction field using List.reverseRecOn with
  | nil => simp
  | append_singleton field c =>
    simp only [escapeField_append, escapeField_cons, escapeField_nil, List.append_nil]
    unfold escapeChar
    split <;> simp [List.getLast?_append, List.getLast?_cons]

/-- A row that is cut behind the field `front` is read as it stands up to a semicolon. -/
theorem readLine_cut {front : Text} (hhead : isSpace head = false) :
    readLine casing numerals (joinFields (head :: first) rest ++ ':' :: escapeField front) =
      if (front.rdropWhile isSpace).getLast? = some ';' then
        readFields casing numerals
          ((head :: first) :: (rest ++ [(front.rdropWhile isSpace).dropLast]))
      else .ok .skip := by
  have hstrip : strip (joinFields (head :: first) rest ++ ':' :: escapeField front) =
      joinFields (head :: first) rest ++ ':' :: escapeField (front.rdropWhile isSpace) := by
    obtain ⟨c, tail, hc, heq⟩ := joinFields_head first rest hhead
    rw [strip, ← rdropWhile_escapeField, heq, List.cons_append,
      List.dropWhile_cons_of_neg (by simp [hc])]
  split
  · rename_i hlast
    obtain ⟨cut, hcut⟩ := List.getLast?_eq_some_iff.mp hlast
    rw [← readLine_joinFields hhead (by simp)]
    simp only [readLine, hstrip, strip_joinFields hhead]
    simp [hcut, joinFields_append, escapeChar]
  · rename_i hlast
    apply readLine_of_not_semicolon
    rw [hstrip, getLast_escapeField]
    cases hcut : (front.rdropWhile isSpace).getLast? with
    | none => simp
    | some c => simpa [hcut] using hlast

/-- A printed row is read as far as its first line goes. -/
theorem printRow_lines (casing : Casing) (numerals : Numerals) {plain : List Text}
    (loose : List Text) (more : Text) (hhead : isSpace head = false)
    (hfirst : Unbroken (head :: first)) (hplain : ∀ field ∈ plain, Unbroken field)
    (hne : plain ≠ []) (hloose : loose.length ≤ 3) :
    ∃ line others,
      splitlines (printRow (head :: first) (plain ++ loose) ++ more) =
        line :: (others ++ splitlines more) ∧
      (∀ other ∈ others, Quiet casing numerals other) ∧
      readLine casing numerals line =
        match firstLineFields loose with
        | some fields => readFields casing numerals ((head :: first) :: (plain ++ fields))
        | none => .ok .skip := by
  have happ (text : Text) : text ++ [';', '\n'] = text ++ [';'] ++ ['\n'] := by simp
  have hown : splitlines (printRow (head :: first) (plain ++ loose) ++ more) =
      splitlines (printRow (head :: first) (plain ++ loose)) ++ splitlines more := by
    rw [splitlines, printRow, happ, List.append_assoc, List.singleton_append,
      splitlinesFrom_append_newline, ← splitlines]
  rw [hown, splitlines, printRow]
  by_cases hall : ∀ field ∈ loose, Unbroken field
  · refine ⟨joinFields (head :: first) (plain ++ loose) ++ [';'], [], ?_, by simp, ?_⟩
    · have hrow : Unbroken (joinFields (head :: first) (plain ++ loose) ++ [';']) :=
        (unbroken_joinFields hfirst fun field hfield =>
          (List.mem_append.mp hfield).elim (hplain field) (hall field)).append (by decide)
      rw [happ, splitlinesFrom_append hrow, splitlinesFrom_newline]
      rfl
    · rw [firstLineFields_unbroken hall, readLine_joinFields hhead (by simp [hne])]
  · obtain ⟨whole, front, c, back, later, rfl, hwhole, hfront, hc⟩ := exists_cut hall
    obtain ⟨line, hdef⟩ : ∃ line, line =
        joinFields (head :: first) (plain ++ whole) ++ ':' :: escapeField front := ⟨_, rfl⟩
    have hline : Unbroken line := by
      rw [hdef]
      refine (unbroken_joinFields hfirst fun field hfield =>
        (List.mem_append.mp hfield).elim (hplain field) (hwhole field)).append fun d hd => ?_
      rcases List.mem_cons.mp hd with rfl | hd
      · decide
      · exact unbroken_escapeField hfront d hd
    have hcplain : ¬ (c = ':' ∨ c = '\\') := fun hspecial => by
      rw [not_break_of_not_space (not_space_of_special hspecial)] at hc
      cases hc
    let left := escapeField back ++ (later.flatMap fun field => ':' :: escapeField field) ++
      [';', '\n']
    have hrow : joinFields (head :: first) (plain ++ (whole ++ (front ++ c :: back) :: later)) ++
        [';', '\n'] = line ++ c :: left := by
      simp [hdef, left, joinFields, escapeChar_plain hcplain]
    have hleft : Piece 2 left := by
      have hend : Piece 0 [';', '\n'] :=
        .plain (by decide) (by decide) (.plain (by decide) (by decide) .nil)
      have hlater : later.length ≤ 2 := by
        simp only [List.length_append, List.length_cons] at hloose
        omega
      exact (((piece_escapeField back).append (piece_fields later)).append hend).mono (by omega)
    obtain ⟨others, heq, hsub⟩ := @splitlinesFrom_break line left c hc
    refine ⟨line, others, ?_, fun other hother => Piece.quiet ?_, ?_⟩
    · rw [hrow, splitlinesFrom_append hline, List.nil_append, heq, List.cons_append]
    · exact (hleft.of_mem_lines (.nil (n := 0)) other (hsub hother)).mono (by omega)
    · rw [hdef, readLine_cut hhead, firstLineFields_cut hwhole hfront hc]
      split_ifs
      · simp
      · rfl

end FirstLines

end Installer
