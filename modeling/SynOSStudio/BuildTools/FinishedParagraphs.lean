import SynOSStudio.BuildTools.ControlParagraphs

/-!
# Finished paragraphs

The lines that are left of a paragraph when its file is finished, and the fields that are read
from them.
-/

namespace BuildTools.ControlFields

open TextLines TextPasses

section Stripping

variable {text front line : Text} {c : Char}

theorem rstrip_concat_space (h : isSpace c = true) : rstrip (text ++ [c]) = rstrip text :=
  List.rdropWhile_concat_pos _ _ _ h

theorem rstrip_concat (h : isSpace c = false) : rstrip (text ++ [c]) = text ++ [c] :=
  List.rdropWhile_concat_neg _ _ _ (by simp [h])

theorem rstrip_rstrip : rstrip (rstrip text) = rstrip text := List.rdropWhile_idempotent _ _

/-- What stands in front of a character that is kept is kept. -/
theorem rstrip_append (h : isSpace c = false) :
    rstrip (front ++ c :: text) = front ++ c :: rstrip text := by
  induction text using List.reverseRecOn with
  | nil => exact rstrip_concat h
  | append_singleton text d ih =>
    have hassoc : front ++ c :: (text ++ [d]) = (front ++ c :: text) ++ [d] := by simp
    rw [hassoc]
    cases hd : isSpace d with
    | true => rw [rstrip_concat_space hd, rstrip_concat_space hd, ih]
    | false => rw [rstrip_concat hd, rstrip_concat hd, hassoc]

theorem strip_concat_space (h : isSpace c = true) : strip (text ++ [c]) = strip text := by
  rw [strip, List.dropWhile_append]
  split
  · next hempty =>
    rw [strip, List.isEmpty_iff.mp hempty, List.dropWhile_cons_of_pos h, List.dropWhile_nil]
  · exact List.rdropWhile_concat_pos _ _ _ h

theorem strip_rstrip : strip (rstrip text) = strip text := by
  induction text using List.reverseRecOn with
  | nil => rfl
  | append_singleton text c ih =>
    cases hc : isSpace c with
    | true => rw [rstrip_concat_space hc, strip_concat_space hc, ih]
    | false => rw [rstrip_concat hc]

theorem strip_space (h : isSpace c = true) : strip (c :: text) = strip text := by
  rw [strip, List.dropWhile_cons_of_pos h, strip]

theorem rstrip_visible (h : text.all isSpace = false) : (rstrip text).all isSpace = false := by
  have hne : rstrip text ≠ [] := by
    intro hnil
    rw [rstrip, List.rdropWhile_eq_nil_iff] at hnil
    exact Bool.eq_false_iff.mp h (List.all_eq_true.mpr hnil)
  have hlast : ¬ isSpace ((rstrip text).getLast hne) = true := List.rdropWhile_last_not _ _ hne
  exact List.all_eq_false.mpr ⟨_, List.getLast_mem hne, hlast⟩

theorem isContinuation_rstrip (h : isContinuation line = true)
    (hvisible : line.all isSpace = false) : isContinuation (rstrip line) = true := by
  obtain ⟨tail, htail⟩ : line.rdropWhile isSpace <+: line := List.rdropWhile_prefix _ _
  have hvisible' := rstrip_visible hvisible
  rw [rstrip] at hvisible' ⊢
  cases hrest : line.rdropWhile isSpace with
  | nil =>
    rw [hrest] at hvisible'
    cases hvisible'
  | cons c rest =>
    rw [← htail, hrest] at h
    exact h

end Stripping

section Joining

variable {lines : List Text}

theorem splitlinesFrom_line {line : Text} (h : ∀ c ∈ line, isLineBreak c = false) :
    splitlinesFrom [] line = if line = [] then [] else [line] := by
  have hread : splitlinesFrom [] (line ++ []) = splitlinesFrom ([] ++ line) [] :=
    splitlinesFrom_append h
  rw [List.append_nil, List.nil_append] at hread
  rw [hread, splitlinesFrom]

/-- Lines that are not empty and have no break of their own are read back. -/
theorem splitlines_intercalate (ended : Bool) (hne : ∀ line ∈ lines, line ≠ [])
    (hunbroken : ∀ line ∈ lines, ∀ c ∈ line, isLineBreak c = false) :
    splitlines (List.intercalate ['\n'] (lines ++ lastLine ended)) = lines := by
  induction lines with
  | nil => cases ended <;> rfl
  | cons line lines ih =>
    obtain ⟨hline, hlines⟩ := List.forall_mem_cons.mp hne
    obtain ⟨hbreaks, hrest⟩ := List.forall_mem_cons.mp hunbroken
    by_cases hnil : lines ++ lastLine ended = []
    · rw [List.cons_append, hnil, List.intercalate_singleton, (List.append_eq_nil_iff.mp hnil).1,
        splitlines, splitlinesFrom_line hbreaks, if_neg hline]
    · rw [List.cons_append, List.intercalate_cons_of_ne_nil hnil, List.append_assoc, splitlines,
        splitlinesFrom_append hbreaks, List.nil_append, List.singleton_append,
        splitlinesFrom_newline]
      exact congrArg (line :: ·) (ih hlines hrest)

theorem intercalate_concat_nil (hne : lines ≠ []) :
    List.intercalate ['\n'] (lines ++ [[]]) = List.intercalate ['\n'] lines ++ ['\n'] := by
  induction lines with
  | nil => exact absurd rfl hne
  | cons line lines ih =>
    cases lines with
    | nil => simp
    | cons next lines =>
      have hrest := ih (List.cons_ne_nil _ _)
      rw [List.cons_append, List.intercalate_cons_of_ne_nil (by simp), hrest,
        List.intercalate_cons_cons, ← List.append_assoc]

theorem intercalate_ne_nil {line : Text} (h : line ≠ []) :
    List.intercalate ['\n'] (line :: lines) ≠ [] := by
  cases lines with
  | nil => rwa [List.intercalate_singleton]
  | cons next lines =>
    rw [List.intercalate_cons_cons]
    simp

theorem getLast_intercalate (hne : ∀ line ∈ lines, line ≠ [])
    (hnewline : ∀ line ∈ lines, '\n' ∉ line) :
    ∀ h, (List.intercalate ['\n'] lines).getLast h ≠ '\n' := by
  induction lines with
  | nil => exact fun h => absurd rfl h
  | cons line lines ih =>
    obtain ⟨hline, hlines⟩ := List.forall_mem_cons.mp hne
    obtain ⟨hfirst, hrest⟩ := List.forall_mem_cons.mp hnewline
    cases lines with
    | nil =>
      simp only [List.intercalate_singleton]
      exact fun h heq => hfirst (heq ▸ List.getLast_mem h)
    | cons next lines =>
      have hnext : List.intercalate ['\n'] (next :: lines) ≠ [] :=
        intercalate_ne_nil (hlines _ List.mem_cons_self)
      simp only [List.intercalate_cons_cons]
      intro h
      rw [List.getLast_append_of_ne_nil h hnext]
      exact ih hlines hrest hnext

/-- Nothing of the lines is taken for the newlines behind them. -/
theorem rdropWhile_intercalate (hne : ∀ line ∈ lines, line ≠ [])
    (hnewline : ∀ line ∈ lines, '\n' ∉ line) :
    (List.intercalate ['\n'] lines).rdropWhile (· = '\n') = List.intercalate ['\n'] lines := by
  rw [List.rdropWhile_eq_self_iff]
  intro h
  simpa using getLast_intercalate hne hnewline h

end Joining

/-! ## Addresses -/

section Addresses

variable {owner text : Text} {c : Char}

theorem scanFrom_emptyAddress (prev prev' : Option Char) :
    scanFrom emptyAddress prev 0 text = scanFrom emptyAddress prev' 0 text := by
  cases text <;> rfl

theorem fillAddresses_cons (h : c ≠ '<') :
    fillAddresses owner (c :: text) = c :: fillAddresses owner text := by
  have hnone : emptyAddress none (c :: text) = none := by
    unfold emptyAddress
    split
    · next heq => exact absurd (List.cons.inj heq).1 h
    · rfl
  rw [fillAddresses, scan, scanFrom, hnone, fill_plain, scanFrom_emptyAddress (some c) none]
  rfl

theorem fillAddresses_append {front : Text} (h : '<' ∉ front) :
    fillAddresses owner (front ++ text) = front ++ fillAddresses owner text := by
  induction front with
  | nil => rfl
  | cons c front ih =>
    rw [List.mem_cons, not_or] at h
    rw [List.cons_append, fillAddresses_cons (Ne.symm h.1), ih h.2, List.cons_append]

/-- What is put in is the owner and the host of the placeholder. -/
theorem mem_fillAddresses (h : c ∈ fillAddresses owner text) :
    c ∈ text ∨ c ∈ '<' :: owner ++ "@localhost>".toList := mem_fill_scanFrom h

theorem dropWhile_fillAddresses :
    (fillAddresses owner (text.dropWhile isSpace)).dropWhile isSpace =
      (fillAddresses owner text).dropWhile isSpace := by
  induction text with
  | nil => rfl
  | cons c text ih =>
    cases hc : isSpace c with
    | true =>
      have hne : c ≠ '<' := fun heq => absurd (heq ▸ hc) (by decide)
      rw [List.dropWhile_cons_of_pos hc, ih, fillAddresses_cons hne, List.dropWhile_cons_of_pos hc]
    | false => rw [List.dropWhile_cons_of_neg (by simp [hc])]

end Addresses

/-! ## Lines that are finished -/

namespace Field

/-- What follows the name in the finished line. -/
def filled (owner : Text) (f : Field) : Text :=
  if f.name = maintainer then fillAddresses owner f.first else f.first

def isBlank (f : Field) : Bool := f.first.all isSpace

/-- A field as it is read: the lines without the white space around them. -/
def entry (owner : Text) (f : Field) : Entry :=
  ⟨f.name, strip (f.filled owner), f.continuation.map rstrip⟩

def finishedLines (owner : Text) (f : Field) : List Text :=
  (f.name ++ ':' :: rstrip (f.filled owner)) :: f.continuation.map rstrip

end Field

/-- `[A-Za-z][A-Za-z0-9-]*` -/
def isEmptyName (name : Text) : Bool :=
  name.head?.any isAsciiLetter && name.all isNameChar

/-- A field without a base whose lines are kept together, or left out together. -/
structure Field.Finishable (f : Field) : Prop where
  base : f.base = none
  wellFormed : f.WellFormed
  unbroken : ∀ line ∈ f.first :: f.continuation, ∀ c ∈ line, isLineBreak c = false
  emptied : f.isBlank = true → f.continuation = [] ∧ isEmptyName f.name = true

section Finishing

variable {f : Field} {fields : List Field} {owner name first : Text}

theorem isEmptyField_header (hne : name ≠ []) (hcolon : ':' ∉ name) :
    isEmptyField (name ++ ':' :: first) = (isEmptyName name && first.all isSpace) := by
  have hhead : (name ++ ':' :: first).head? = name.head? := List.head?_append_of_ne_nil _ hne
  rw [isEmptyField, isEmptyName, hhead, Bool.and_assoc]
  congr 1
  by_cases hname : ∀ c ∈ name, isNameChar c = true
  · have hdrop : (name ++ ':' :: first).dropWhile isNameChar = ':' :: first :=
      dropWhile_name hname rfl
    rw [hdrop, List.all_eq_true.mpr hname, Bool.true_and]
    rfl
  · have hall : name.all isNameChar = false := by simpa using hname
    rw [hall, Bool.false_and]
    split
    · next rest heq =>
      rcases dropWhile_head heq with hmem | ⟨-, hall⟩ | hsep
      · exact absurd hmem hcolon
      · exact absurd hall hname
      · exact absurd hsep (by decide)
    · rfl

theorem finishLine_blank (h : f.Finishable) (hblank : f.isBlank = true) :
    finishLine owner f.header = none := by
  rw [header_of_plain h.base, finishLine,
    isEmptyField_header h.wellFormed.name_ne h.wellFormed.colon_not_mem, (h.emptied hblank).2]
  exact if_pos hblank

theorem finishLine_header (h : f.Finishable) (hblank : f.isBlank = false) :
    finishLine owner f.header = some (f.name ++ ':' :: rstrip (f.filled owner)) := by
  have hcolon := h.wellFormed.colon_not_mem
  have hempty : isEmptyField (f.name ++ ':' :: f.first) = false := by
    rw [isEmptyField_header h.wellFormed.name_ne hcolon]
    exact Bool.and_eq_false_imp.mpr fun _ => hblank
  rw [header_of_plain h.base, finishLine, hempty, Field.filled]
  by_cases hname : f.name = maintainer
  · rw [if_neg Bool.false_ne_true, if_pos ((prefix_header (by decide) hcolon).mpr hname),
      if_pos hname, hname, fillAddresses_append (by decide), fillAddresses_cons (by decide),
      rstrip_append rfl]
  · rw [if_neg Bool.false_ne_true, if_neg fun h => hname ((prefix_header (by decide) hcolon).mp h),
      if_neg hname, rstrip_append rfl]

theorem finishLine_continuation (h : f.Finishable) :
    f.continuation.filterMap (finishLine owner) = f.continuation.map rstrip := by
  rw [← List.filterMap_eq_map]
  refine List.filterMap_congr fun line hline => ?_
  have hline := unmatched_continuation h.wellFormed line hline
  rw [finishLine, hline.isEmptyField, hline.isMaintainer]
  rfl

theorem finishLine_lines (h : ∀ f ∈ fields, f.Finishable) :
    (fields.flatMap Field.lines).filterMap (finishLine owner) =
      (fields.filter (¬ ·.isBlank)).flatMap (Field.finishedLines owner) := by
  induction fields with
  | nil => rfl
  | cons f fields ih =>
    obtain ⟨hf, hfs⟩ := List.forall_mem_cons.mp h
    rw [List.flatMap_cons, List.filterMap_append, ih hfs, Field.lines]
    cases hblank : f.isBlank with
    | true =>
      rw [List.filterMap_cons_none (finishLine_blank hf hblank), (hf.emptied hblank).1]
      simp [hblank]
    | false =>
      rw [List.filterMap_cons_some (finishLine_header hf hblank), finishLine_continuation hf]
      simp [hblank, Field.finishedLines]

end Finishing

/-! ## Fields that are read -/

section Reading

variable {f : Field} {fields : List Field} {owner name first line : Text}
  {continuation lines tail : List Text} {entries : List Entry}

theorem isContinuation_header (hne : name ≠ []) (hname : ∀ c ∈ name, isSpace c = false) :
    isContinuation (name ++ ':' :: first) = false := by
  obtain ⟨c, rest, rfl⟩ := List.exists_cons_of_ne_nil hne
  have hc := hname c List.mem_cons_self
  refine Bool.eq_false_iff.mpr fun h => ?_
  have hspace : c = ' ' ∨ c = '\t' := by simpa [isContinuation] using h
  rcases hspace with rfl | rfl <;> exact absurd hc (by decide)

theorem readHeader_eq (hne : name ≠ []) (hcolon : ':' ∉ name)
    (hname : ∀ c ∈ name, isSpace c = false) :
    readHeader (name ++ ':' :: first) continuation = some ⟨name, strip first, continuation⟩ := by
  have hchars : ∀ c ∈ name, decide (c ≠ ':') = true := fun c hc =>
    decide_eq_true fun heq => hcolon (heq ▸ hc)
  have hdrop : (name ++ ':' :: first).dropWhile (· ≠ ':') = ':' :: first :=
    dropWhile_name hchars rfl
  have htake : (name ++ ':' :: first).takeWhile (· ≠ ':') = name := takeWhile_name hchars rfl
  have hany : name.any isSpace = false := List.any_eq_false.mpr fun c hc => by simp [hname c hc]
  rw [readHeader, hdrop]
  simp only [htake, hne, hany, Bool.false_eq_true, or_self, if_false]

theorem foldr_readLine_continuation (h : ∀ line ∈ lines, isContinuation line = true) :
    lines.foldr readLine (some (continuation, entries)) =
      some (lines.map rstrip ++ continuation, entries) := by
  induction lines with
  | nil => rfl
  | cons line lines ih =>
    obtain ⟨hline, hlines⟩ := List.forall_mem_cons.mp h
    rw [List.foldr_cons, ih hlines, readLine, if_pos hline, List.map_cons, List.cons_append]

theorem isContinuation_finished (hf : f.WellFormed) :
    ∀ line ∈ f.continuation.map rstrip, isContinuation line = true :=
  List.forall_mem_map.mpr fun line hline =>
    isContinuation_rstrip (hf.continued line hline).1 (hf.continued line hline).2

theorem foldr_readLine_field (hf : f.WellFormed) :
    (f.finishedLines owner).foldr readLine (some ([], entries)) =
      some ([], f.entry owner :: entries) := by
  have hname : ∀ c ∈ f.name, isSpace c = false := fun c hc => (hf.name_chars c hc).2.2
  rw [Field.finishedLines, List.foldr_cons,
    foldr_readLine_continuation (isContinuation_finished hf), List.append_nil, readLine,
    isContinuation_header hf.name_ne hname, if_neg Bool.false_ne_true,
    readHeader_eq hf.name_ne hf.colon_not_mem hname, strip_rstrip, List.map_map]
  have hstripped : f.continuation.map (rstrip ∘ rstrip) = f.continuation.map rstrip :=
    List.map_congr_left fun line _ => rstrip_rstrip
  rw [hstripped]
  rfl

/-- Each field takes its own lines. -/
theorem readFields_lines (h : ∀ f ∈ fields, f.WellFormed) :
    readFields (fields.flatMap (Field.finishedLines owner)) =
      some (fields.map (Field.entry owner)) := by
  have hfold : (fields.flatMap (Field.finishedLines owner)).foldr readLine (some ([], [])) =
      some ([], fields.map (Field.entry owner)) := by
    induction fields with
    | nil => rfl
    | cons f fields ih =>
      obtain ⟨hf, hfs⟩ := List.forall_mem_cons.mp h
      rw [List.flatMap_cons, List.foldr_append, ih hfs, foldr_readLine_field hf, List.map_cons]
  rw [readFields, hfold]

theorem newline_not_mem_filled (hf : f.WellFormed) (howner : '\n' ∉ owner) :
    '\n' ∉ f.filled owner := by
  have hfirst : '\n' ∉ f.first := hf.newline _ List.mem_cons_self
  unfold Field.filled
  split
  · intro hmem
    rcases mem_fillAddresses hmem with hmem | hmem
    · exact hfirst hmem
    · simp [howner] at hmem
  · exact hfirst

theorem finished_line (hf : f.WellFormed) (howner : '\n' ∉ owner)
    (hline : line ∈ f.finishedLines owner) : line.all isSpace = false ∧ '\n' ∉ line := by
  have hrstrip : ∀ text : Text, '\n' ∉ text → '\n' ∉ rstrip text :=
    fun text htext hmem => htext ((List.rdropWhile_prefix _ _).subset hmem)
  rcases List.mem_cons.mp hline with rfl | hline
  · have hname : '\n' ∉ f.name := fun h => absurd (hf.name_chars _ h).2.2 (by decide)
    have hvalue := hrstrip _ (newline_not_mem_filled hf howner)
    refine ⟨List.all_eq_false.mpr ⟨':', by simp, by decide⟩, ?_⟩
    simp [hname, hvalue]
  · obtain ⟨line, hmem, rfl⟩ := List.mem_map.mp hline
    exact ⟨rstrip_visible (hf.continued line hmem).2,
      hrstrip _ (hf.newline line (List.mem_cons_of_mem _ hmem))⟩

theorem takeWhile_front {p : Text → Bool} (hlines : ∀ line ∈ lines, p line = true)
    (htail : ∀ line ∈ tail, ¬ p line = true) :
    (lines ++ tail).takeWhile p = lines ∧ (lines ++ tail).dropWhile p = tail := by
  rw [List.takeWhile_append_of_pos hlines, List.dropWhile_append_of_pos hlines]
  cases tail with
  | nil => exact ⟨List.append_nil _, rfl⟩
  | cons line tail =>
    have hstop := htail line List.mem_cons_self
    rw [List.takeWhile_cons_of_neg hstop, List.dropWhile_cons_of_neg hstop]
    exact ⟨List.append_nil _, rfl⟩

/-- What is read from lines that are visible and end in one newline. -/
theorem parse_ended (hvisible : ∀ line ∈ lines, line.all isSpace = false)
    (hnewline : ∀ line ∈ lines, '\n' ∉ line) :
    parse ((List.intercalate ['\n'] lines).rdropWhile (· = '\n') ++ ['\n']) = readFields lines := by
  have hne : ∀ line ∈ lines, line ≠ [] := by
    rintro line hline rfl
    exact absurd (hvisible [] hline) (by decide)
  obtain ⟨tail, hsplit, htail⟩ : ∃ tail,
      ((List.intercalate ['\n'] lines).rdropWhile (· = '\n') ++ ['\n']).splitOn '\n' =
          lines ++ tail ∧
        ∀ line ∈ tail, line.all isSpace = true := by
    by_cases hnil : lines = []
    · subst hnil
      exact ⟨[[], []], by decide, by decide⟩
    · refine ⟨[[]], ?_, by decide⟩
      rw [rdropWhile_intercalate hne hnewline, ← intercalate_concat_nil hnil]
      refine List.splitOn_intercalate '\n' (List.forall_mem_append.mpr ⟨hnewline, ?_⟩) (by simp)
      exact List.forall_mem_singleton.mpr List.not_mem_nil
  have hfront : ∀ line ∈ lines, decide (¬ line.all isSpace = true) = true := fun line hline => by
    simp [hvisible line hline]
  have hstop : ∀ line ∈ tail, ¬ decide (¬ line.all isSpace = true) = true := fun line hline => by
    simp [htail line hline]
  obtain ⟨htake, hdrop⟩ := takeWhile_front hfront hstop
  rw [parse, hsplit, htake, hdrop]
  exact if_pos (List.all_eq_true.mpr htail)

/-- What is read of a finished paragraph: its fields that are not blank. -/
theorem parse_finishControl {brandId : Option Text} {ended : Bool}
    (h : ∀ f ∈ fields, f.Finishable) (howner : '\n' ∉ ownerOf brandId) :
    parse (finishControl (render fields ended) brandId) =
      some ((fields.filter (¬ ·.isBlank)).map (Field.entry (ownerOf brandId))) := by
  have hlines : splitlines (render fields ended) = fields.flatMap Field.lines := by
    refine splitlines_intercalate ended ?_ ?_
    · intro line hline
      obtain ⟨f, hmem, hline⟩ := List.mem_flatMap.mp hline
      rcases List.mem_cons.mp hline with rfl | hline
      · simp [Field.header]
      · rintro rfl
        exact absurd ((h f hmem).wellFormed.continued [] hline).1 (by decide)
    · intro line hline c hc
      obtain ⟨f, hmem, hline⟩ := List.mem_flatMap.mp hline
      rcases List.mem_cons.mp hline with rfl | hline
      · rw [header_of_plain (h f hmem).base] at hc
        rcases List.mem_append.mp hc with hc | hc
        · have hspace := ((h f hmem).wellFormed.name_chars c hc).2.2
          exact Bool.eq_false_iff.mpr fun hbreak =>
            Bool.eq_false_iff.mp hspace (isSpace_of_isLineBreak hbreak)
        · rcases List.mem_cons.mp hc with rfl | hc
          · rfl
          · exact (h f hmem).unbroken _ List.mem_cons_self c hc
      · exact (h f hmem).unbroken line (List.mem_cons_of_mem _ hline) c hc
  have hwellFormed : ∀ f ∈ fields.filter (¬ ·.isBlank), f.WellFormed := fun f hmem =>
    (h f (List.mem_of_mem_filter hmem)).wellFormed
  have hfinished : ∀ line ∈ (fields.filter (¬ ·.isBlank)).flatMap
      (Field.finishedLines (ownerOf brandId)), line.all isSpace = false ∧ '\n' ∉ line := by
    intro line hline
    obtain ⟨f, hmem, hline⟩ := List.mem_flatMap.mp hline
    exact finished_line (hwellFormed f hmem) howner hline
  rw [finishControl, hlines, finishLine_lines h,
    parse_ended (fun line hline => (hfinished line hline).1)
      (fun line hline => (hfinished line hline).2), readFields_lines hwellFormed]

end Reading

end BuildTools.ControlFields
