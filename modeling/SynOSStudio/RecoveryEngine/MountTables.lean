import SynOSStudio.RecoveryEngine.MountLayout

/-!
# Tables of mounts

The kernel prints a mount in a line of fields and escapes the blanks, tabs, newlines and
backslashes of its paths and names. It does not escape other white space, at which the reader
takes a path for two.
-/

namespace RecoveryEngine.Layout

open ByteStreams TextPasses
open SecurityKeys.Ssh (Text lines splitWhitespace stripLineBreak)

/-! ## Printing -/

/-- A mount. The words of its options and the numbers in front are the kernel's own. -/
structure Mount where
  id : ℕ
  parent : ℕ
  major : ℕ
  minor : ℕ
  root : Text
  mountPoint : Text
  options : Text
  optional : List Text
  filesystem : Text
  source : Text
  superOptions : Text
  isRoot : root ≠ [] ∧ root ≠ ['-']
  isPoint : mountPoint ≠ [] ∧ mountPoint ≠ ['-']
  isOptions : options ≠ [] ∧ options ≠ ['-'] ∧ ∀ c ∈ options, SecurityKeys.Ssh.isWhitespace c = false
  isOptional : ∀ field ∈ optional, field ≠ ['-']
  isFilesystem : filesystem ≠ []

/-- The escapes of `seq_path`. -/
def escapeChar (c : Char) : Text :=
  if c = ' ' then "\\040".toList
  else if c = '\t' then "\\011".toList
  else if c = '\n' then "\\012".toList
  else if c = '\\' then "\\134".toList
  else [c]

def escape (text : Text) : Text :=
  text.flatMap escapeChar

def number (n : ℕ) : Text :=
  Nat.toDigits 10 n

/-- The fields of a mount up to the hyphen, but for the numbers. -/
def Mount.leftFields (m : Mount) : List Text :=
  m.root :: m.mountPoint :: m.options :: m.optional

def Mount.rightFields (m : Mount) : List Text :=
  [m.filesystem, m.source, m.superOptions]

def Mount.numbers (m : Mount) : List Text :=
  [number m.id, number m.parent, number m.major ++ ':' :: number m.minor]

def Mount.left (m : Mount) : Text :=
  List.intercalate [' '] (m.numbers ++ m.leftFields.map escape)

def Mount.right (m : Mount) : Text :=
  List.intercalate [' '] (m.rightFields.map escape)

def Mount.line (m : Mount) : Text :=
  m.left ++ " - ".toList ++ m.right ++ ['\n']

def mountinfo (mounts : List Mount) : Text :=
  mounts.flatMap Mount.line

/-! ## Reading back -/

section Escapes

variable {text rest pattern : Text} {c x : Char} {done : List Char} {prev : Option Char}

def ESCAPED : List Char :=
  [' ', '\t', '\n', '\\']

theorem escapeChar_of_not_mem (h : c ∉ ESCAPED) : escapeChar c = [c] := by
  simp only [ESCAPED, List.mem_cons, List.not_mem_nil, or_false, not_or] at h
  obtain ⟨hblank, htab, hbreak, hslash⟩ := h
  rw [escapeChar, if_neg hblank, if_neg htab, if_neg hbreak, if_neg hslash]

theorem escapeChar_of_mem : ∀ c ∈ ESCAPED, (escapeChar c).length = 4 ∧
    (escapeChar c).head? = some '\\' ∧ '\\' ∉ (escapeChar c).tail := by
  decide

theorem escapeChar_inj : ∀ c ∈ ESCAPED, ∀ x ∈ ESCAPED, escapeChar c = escapeChar x → c = x := by
  decide

/-- A text in which the escapes of some characters are undone. -/
def partly (done : List Char) (text : Text) : Text :=
  text.flatMap fun c => if c ∈ done then [c] else escapeChar c

theorem partly_nil (text : Text) : partly [] text = escape text := by
  simp [partly, escape]

theorem partly_all (h : ∀ c ∈ ESCAPED, c ∈ done) : partly done text = text := by
  induction text with
  | nil => rfl
  | cons c text ih =>
    have hc : (if c ∈ done then [c] else escapeChar c) = [c] := by
      by_cases hdone : c ∈ done
      · rw [if_pos hdone]
      · rw [if_neg hdone, escapeChar_of_not_mem fun hmem => hdone (h c hmem)]
    rw [partly, List.flatMap_cons, hc]
    exact congrArg (c :: ·) ih

theorem not_hit_of_ne (hpattern : pattern.head? = some '\\') (h : c ≠ '\\') :
    pattern.isPrefixOf (c :: rest) = false := by
  cases pattern with
  | nil => cases hpattern
  | cons d pattern =>
    obtain rfl : d = '\\' := Option.some.inj hpattern
    rw [List.isPrefixOf, beq_false_of_ne (Ne.symm h), Bool.false_and]

/-- An escape is not found in another one. -/
theorem not_hit_escape (hc : c ∈ ESCAPED) (hx : x ∈ ESCAPED) (hne : c ≠ x) :
    (escapeChar x).isPrefixOf (escapeChar c ++ rest) = false := by
  rw [Bool.eq_false_iff]
  intro hit
  obtain ⟨after, happend⟩ := List.isPrefixOf_iff_prefix.mp hit
  have hlength := (escapeChar_of_mem x hx).1.trans (escapeChar_of_mem c hc).1.symm
  exact hne (escapeChar_inj c hc x hx (List.append_inj happend hlength).1.symm)

/-- A pass undoes the escape of its character and leaves the other escapes. -/
theorem pass_partly (hx : x ∈ ESCAPED) (hslash : '\\' ∉ done) (hpattern : pattern = escapeChar x)
    {h : 0 < pattern.length} :
    passFrom (literal pattern h) [x] prev 0 (partly done text) = partly (x :: done) text := by
  subst hpattern
  obtain ⟨hlength, hhead, _⟩ := escapeChar_of_mem x hx
  induction text generalizing prev with
  | nil => simp [partly]
  | cons c text ih =>
    have hplain : c ≠ '\\' → passFrom (literal (escapeChar x) h) [x] prev 0
        (c :: partly done text) = c :: partly (x :: done) text := by
      intro hne
      rw [passFrom_miss (not_hit_of_ne hhead hne), ih]
    rw [partly, partly, List.flatMap_cons, List.flatMap_cons]
    by_cases hdone : c ∈ done
    · rw [if_pos hdone, if_pos (List.mem_cons_of_mem x hdone)]
      exact hplain fun heq => hslash (heq ▸ hdone)
    · rw [if_neg hdone]
      by_cases heq : c = x
      · rw [heq, if_pos List.mem_cons_self]
        have hit : (literal (escapeChar x) h).hit prev (escapeChar x ++ partly done text) = true :=
          List.isPrefixOf_iff_prefix.mpr (List.prefix_append _ _)
        exact (passFrom_append_hit rfl hit).trans (congrArg (x :: ·) ih)
      · rw [if_neg (by simp [heq, hdone])]
        by_cases hc : c ∈ ESCAPED
        · obtain ⟨-, hheadc, htail⟩ := escapeChar_of_mem c hc
          have hmiss : (escapeChar x).isPrefixOf (escapeChar c ++ partly done text) = false :=
            not_hit_escape hc hx heq
          cases hescape : escapeChar c with
          | nil =>
            rw [hescape] at hheadc
            cases hheadc
          | cons d digits =>
            rw [hescape] at hmiss htail
            rw [List.cons_append, List.cons_append]
            refine (passFrom_miss hmiss).trans (congrArg (d :: ·) ?_)
            refine (passFrom_quiet digits fun a ha prev rest => ?_).trans
              (congrArg (digits ++ ·) ih)
            exact not_hit_of_ne hhead fun heq => htail (heq ▸ ha)
        · rw [escapeChar_of_not_mem hc]
          exact hplain fun heq => hc (heq ▸ by decide)

/-- The passes undo the escapes. -/
theorem unescape_escape (text : Text) : unescapeMountField (escape text) = text := by
  rw [← partly_nil, unescapeMountField]
  simp only [TextPasses.pass]
  have hblank : "\\040".toList = escapeChar ' ' := by decide
  have htab : "\\011".toList = escapeChar '\t' := by decide
  have hbreak : "\\012".toList = escapeChar '\n' := by decide
  have hslash : "\\134".toList = escapeChar '\\' := by decide
  rw [pass_partly (by decide) (by decide) hblank, pass_partly (by decide) (by decide) htab,
    pass_partly (by decide) (by decide) hbreak, pass_partly (by decide) (by decide) hslash]
  exact partly_all (by decide)

end Escapes

/-! ## Words -/

/-- White space that the kernel prints as it is. -/
def isUnescaped (c : Char) : Bool :=
  SecurityKeys.Ssh.isWhitespace c && decide (c ∉ ESCAPED)

/-- What the reader takes a field for. -/
def words (text : Text) : List Text :=
  (text.splitOnP isUnescaped).filter (· ≠ [])

section Words

variable {text front rest sep field : Text} {fields : List Text} {c d : Char}

theorem isWhitespace_of_mem_escapeChar (h : d ∈ escapeChar c) :
    SecurityKeys.Ssh.isWhitespace d = isUnescaped c := by
  by_cases hc : c ∈ ESCAPED
  · have hdigits : ∀ c ∈ ESCAPED, ∀ d ∈ escapeChar c, SecurityKeys.Ssh.isWhitespace d = isUnescaped c := by decide
    exact hdigits c hc d h
  · rw [escapeChar_of_not_mem hc, List.mem_singleton] at h
    simp [h, isUnescaped, hc]

theorem not_mem_escape (hd : d ∈ [' ', '\n']) : d ∉ escape text := by
  intro hmem
  obtain ⟨c, _, hc⟩ := List.mem_flatMap.mp hmem
  by_cases hescaped : c ∈ ESCAPED
  · have hdigits : ∀ c ∈ ESCAPED, ∀ d ∈ [' ', '\n'], d ∉ escapeChar c := by decide
    exact hdigits c hescaped d hd hc
  · rw [escapeChar_of_not_mem hescaped, List.mem_singleton] at hc
    have hspecial : ∀ d ∈ [' ', '\n'], d ∈ ESCAPED := by decide
    exact hescaped (hc ▸ hspecial d hd)

theorem escape_eq_nil : escape text = [] ↔ text = [] := by
  constructor
  · intro h
    rw [← unescape_escape text, h]
    rfl
  · rintro rfl
    rfl

theorem escape_inj (h : escape text = escape rest) : text = rest := by
  rw [← unescape_escape text, h, unescape_escape]

theorem splitWhitespace_escape (text : Text) :
    splitWhitespace (escape text) = (words text).map escape := by
  have hsep : ∀ c, isUnescaped c = true → ∃ d, escapeChar c = [d] ∧ SecurityKeys.Ssh.isWhitespace d = true := by
    intro c hc
    obtain ⟨hspace, hplain⟩ := Bool.and_eq_true_iff.mp hc
    exact ⟨c, escapeChar_of_not_mem (of_decide_eq_true hplain), hspace⟩
  have hkeep : ∀ c, isUnescaped c = false → ∀ d ∈ escapeChar c, SecurityKeys.Ssh.isWhitespace d = false :=
    fun c hc d hd => (isWhitespace_of_mem_escapeChar hd).trans hc
  have hsplit := splitOnP_flatMap hsep hkeep text
  rw [splitWhitespace, words, escape, hsplit, List.filter_map]
  refine congrArg _ (List.filter_congr fun field _ => ?_)
  exact decide_eq_decide.mpr (not_congr escape_eq_nil)

theorem splitWhitespace_append (h : SecurityKeys.Ssh.isWhitespace c = true) :
    splitWhitespace (front ++ c :: rest) = splitWhitespace front ++ splitWhitespace rest := by
  rw [splitWhitespace, List.splitOnP_append_cons _ _ h, List.filter_append]
  rfl

theorem splitWhitespace_word (hne : text ≠ []) (h : ∀ c ∈ text, SecurityKeys.Ssh.isWhitespace c = false) :
    splitWhitespace text = [text] := by
  rw [splitWhitespace, List.splitOnP_eq_singleton h]
  simp [hne]

theorem splitWhitespace_intercalate (fields : List Text) :
    splitWhitespace (List.intercalate [' '] fields) = fields.flatMap splitWhitespace := by
  induction fields with
  | nil => rfl
  | cons field fields ih =>
    cases fields with
    | nil => rw [List.intercalate_singleton, List.flatMap_singleton]
    | cons next fields =>
      rw [List.intercalate_cons_cons, List.append_assoc, List.singleton_append,
        splitWhitespace_append rfl, ih]
      rfl

/-- The separator begins behind the blanks of a field. -/
theorem splitOnce_skip (h : ' ' ∉ front) :
    splitOnce (' ' :: sep) (front ++ rest) =
      (splitOnce (' ' :: sep) rest).map fun p => (front ++ p.1, p.2) := by
  induction front with
  | nil => simp
  | cons c front ih =>
    have hne : ' ' ≠ c := fun heq => h (by rw [heq]; exact List.mem_cons_self)
    have hmiss : (' ' :: sep).isPrefixOf (c :: (front ++ rest)) = false := by
      rw [List.isPrefixOf, beq_false_of_ne hne, Bool.false_and]
    rw [List.cons_append, splitOnce, if_neg (by simp [hmiss]),
      ih fun hmem => h (List.mem_cons_of_mem c hmem), Option.map_map]
    rfl

/-- A field with a blank behind it is a hyphen and a blank only if it is a hyphen. -/
theorem not_hyphen (hblank : ' ' ∉ field) (hhyphen : field ≠ ['-']) :
    ['-', ' '].isPrefixOf (field ++ ' ' :: rest) = false := by
  match field with
  | [] => rfl
  | [c] =>
    have hc : '-' ≠ c := fun heq => hhyphen (by rw [heq])
    simp [List.isPrefixOf, hc]
  | c :: d :: field =>
    have hd : ' ' ≠ d := fun heq => hblank (by rw [heq]; simp)
    simp [List.isPrefixOf, hd]

/-- The first hyphen between blanks stands behind fields that are no hyphens. -/
theorem splitOnce_intercalate (hne : fields ≠ []) (hblank : ∀ field ∈ fields, ' ' ∉ field)
    (hhyphen : ∀ field ∈ fields.tail, field ≠ ['-']) :
    splitOnce [' ', '-', ' '] (List.intercalate [' '] fields ++ ' ' :: '-' :: ' ' :: rest) =
      some (List.intercalate [' '] fields, rest) := by
  induction fields with
  | nil => exact absurd rfl hne
  | cons field fields ih =>
    have hfield := hblank field List.mem_cons_self
    cases fields with
    | nil =>
      rw [List.intercalate_singleton, splitOnce_skip hfield]
      simp [splitOnce]
    | cons next fields =>
      obtain ⟨hnext, hrest⟩ := List.forall_mem_cons.mp hhyphen
      have hblanks : ∀ field ∈ next :: fields, ' ' ∉ field := fun field hmem =>
        hblank field (List.mem_cons_of_mem _ hmem)
      have htail := ih (List.cons_ne_nil _ _) hblanks hrest
      obtain ⟨after, hafter⟩ : ∃ after, List.intercalate [' '] (next :: fields) ++
          ' ' :: '-' :: ' ' :: rest = next ++ ' ' :: after := by
        cases fields with
        | nil => exact ⟨_, by rw [List.intercalate_singleton]⟩
        | cons other fields =>
          exact ⟨_, by rw [List.intercalate_cons_cons, List.append_assoc, List.append_assoc]; rfl⟩
      have hmiss : ['-', ' '].isPrefixOf (next ++ ' ' :: after) = false :=
        not_hyphen (hblanks next List.mem_cons_self) hnext
      rw [List.intercalate_cons_cons, List.append_assoc, List.append_assoc, splitOnce_skip hfield,
        List.singleton_append, splitOnce, if_neg, htail]
      · simp
      · rw [List.isPrefixOf, hafter, hmiss]
        simp

end Words

/-! ## Mounts as they are seen -/

/-- What the reader sees of a mount: the first two words of its paths are taken for the paths, and
the first two words behind the hyphen for the file system and the source. -/
def Mount.seen (m : Mount) : Option MountEntry :=
  match m.leftFields.flatMap words, m.rightFields.flatMap words with
  | root :: mountPoint :: _ :: _, filesystem :: source :: _ =>
    some ⟨root, mountPoint, filesystem, source⟩
  | _, _ => none

/-- The file system of an entry keeps its escapes. -/
def MountEntry.printed (entry : MountEntry) : MountEntry :=
  { entry with filesystem := escape entry.filesystem }

section Mounts

variable {m : Mount} {mounts : List Mount} {n : ℕ} {c : Char} {field : Text}

theorem mem_numbers (hfield : field ∈ m.numbers) :
    field ≠ [] ∧ ∀ c ∈ field, c.isDigit = true ∨ c = ':' := by
  have hdigit : ∀ n, ∀ c ∈ number n, c.isDigit = true ∨ c = ':' := fun n c hc =>
    .inl (Nat.isDigit_of_mem_toDigits (by decide) (by decide) hc)
  simp only [Mount.numbers, List.mem_cons, List.not_mem_nil, or_false] at hfield
  rcases hfield with rfl | rfl | rfl
  · exact ⟨Nat.toDigits_ne_nil, hdigit m.id⟩
  · exact ⟨Nat.toDigits_ne_nil, hdigit m.parent⟩
  · refine ⟨by simp, fun c hc => ?_⟩
    rcases List.mem_append.mp hc with hc | hc
    · exact hdigit m.major c hc
    · rcases List.mem_cons.mp hc with rfl | hc
      · exact .inr rfl
      · exact hdigit m.minor c hc

theorem isWhitespace_of_number (h : c.isDigit = true ∨ c = ':') : SecurityKeys.Ssh.isWhitespace c = false := by
  rcases h with h | rfl
  · obtain ⟨hlow, hhigh⟩ := Char.isDigit_iff_toNat.mp h
    have hzero : '0'.toNat = 48 := rfl
    have hnine : '9'.toNat = 57 := rfl
    simp only [SecurityKeys.Ssh.isWhitespace, Bool.or_eq_false_iff, Bool.and_eq_false_iff, decide_eq_false_iff_not,
      List.contains_eq_mem, List.mem_cons, List.not_mem_nil, or_false, beq_eq_false_iff_ne]
    omega
  · rfl

theorem splitWhitespace_numbers : m.numbers.flatMap splitWhitespace = m.numbers := by
  have hwords : ∀ field ∈ m.numbers, splitWhitespace field = [field] := fun field hfield =>
    splitWhitespace_word (mem_numbers hfield).1 fun c hc =>
      isWhitespace_of_number ((mem_numbers hfield).2 c hc)
  rw [List.flatMap_congr hwords]
  exact List.flatMap_singleton' _

theorem splitWhitespace_fields (fields : List Text) :
    (fields.map escape).flatMap splitWhitespace = (fields.flatMap words).map escape := by
  rw [List.flatMap_map, List.map_flatMap]
  exact List.flatMap_congr fun field _ => splitWhitespace_escape field

theorem splitWhitespace_left :
    splitWhitespace m.left = m.numbers ++ (m.leftFields.flatMap words).map escape := by
  rw [Mount.left, splitWhitespace_intercalate, List.flatMap_append, splitWhitespace_numbers,
    splitWhitespace_fields]

theorem splitWhitespace_right :
    splitWhitespace m.right = (m.rightFields.flatMap words).map escape := by
  rw [Mount.right, splitWhitespace_intercalate, splitWhitespace_fields]

/-- The reader divides a line where it was put together. -/
theorem splitOnce_left (m : Mount) (right : Text) :
    splitOnce [' ', '-', ' '] (m.left ++ ' ' :: '-' :: ' ' :: right) = some (m.left, right) := by
  have hnumber : ∀ field ∈ m.numbers, ∀ c ∈ [' ', '-'], c ∉ field := by
    intro field hfield c hc hmem
    rcases (mem_numbers hfield).2 c hmem with hdigit | rfl
    · have hnone : ∀ c ∈ [' ', '-'], c.isDigit = false := by decide
      rw [hnone c hc] at hdigit
      cases hdigit
    · revert hc
      decide
  have hleft : ∀ field ∈ m.leftFields, field ≠ ['-'] := by
    intro field hfield
    simp only [Mount.leftFields, List.mem_cons] at hfield
    rcases hfield with rfl | rfl | rfl | hfield
    · exact m.isRoot.2
    · exact m.isPoint.2
    · exact m.isOptions.2.1
    · exact m.isOptional field hfield
  refine splitOnce_intercalate (by simp [Mount.numbers]) ?_ ?_
  · intro field hfield
    rcases List.mem_append.mp hfield with hfield | hfield
    · exact hnumber field hfield ' ' (by decide)
    · obtain ⟨field, _, rfl⟩ := List.mem_map.mp hfield
      exact not_mem_escape (by decide)
  · intro field hfield
    rcases List.mem_append.mp (List.mem_of_mem_tail hfield) with hfield | hfield
    · rintro rfl
      exact hnumber _ hfield '-' (by decide) List.mem_cons_self
    · obtain ⟨raw, hraw, rfl⟩ := List.mem_map.mp hfield
      intro heq
      exact hleft raw hraw (escape_inj (heq.trans (by decide)))

theorem newline_not_mem_left (m : Mount) : '\n' ∉ m.left := by
  intro hmem
  rcases mem_intercalate hmem with heq | ⟨field, hfield, hc⟩
  · exact absurd heq (by decide)
  · rcases List.mem_append.mp hfield with hfield | hfield
    · have hspace := isWhitespace_of_number ((mem_numbers hfield).2 _ hc)
      cases hspace
    · obtain ⟨raw, _, rfl⟩ := List.mem_map.mp hfield
      exact not_mem_escape (by decide) hc

theorem newline_not_mem_right (m : Mount) : '\n' ∉ m.right := by
  intro hmem
  rcases mem_intercalate hmem with heq | ⟨field, hfield, hc⟩
  · exact absurd heq (by decide)
  · obtain ⟨raw, _, rfl⟩ := List.mem_map.mp hfield
    exact not_mem_escape (by decide) hc

theorem line_eq (m : Mount) : m.line = m.left ++ ' ' :: '-' :: ' ' :: m.right ++ ['\n'] := by
  rw [Mount.line, List.append_assoc m.left]
  rfl

theorem lines_mountinfo (mounts : List Mount) :
    lines (mountinfo mounts) = mounts.map fun m => stripLineBreak m.line := by
  have hlines : linesOf '\n' (mountinfo mounts) = mounts.map Mount.line := by
    rw [mountinfo, List.flatMap_def, linesOf_flatten]
    intro line hline
    obtain ⟨m, _, rfl⟩ := List.mem_map.mp hline
    refine ⟨_, line_eq m, ?_⟩
    simp [newline_not_mem_left, newline_not_mem_right]
  rw [lines, hlines, List.map_map]
  rfl

/-- A carriage return at the end of a line is lost, which no word notices. -/
theorem stripLineBreak_line (m : Mount) : ∃ right,
    stripLineBreak m.line = m.left ++ ' ' :: '-' :: ' ' :: right ∧
      splitWhitespace right = splitWhitespace m.right := by
  have hlast : m.line.getLast? = some '\n' := by rw [line_eq, List.getLast?_concat]
  have hdrop : m.line.dropLast = m.left ++ ' ' :: '-' :: ' ' :: m.right := by
    rw [line_eq, List.dropLast_concat]
  rw [stripLineBreak, if_pos hlast, hdrop]
  by_cases hreturn : (m.left ++ ' ' :: '-' :: ' ' :: m.right).getLast? = some '\r'
  · obtain hnil | ⟨right, last, hright⟩ := List.eq_nil_or_concat m.right
    · rw [hnil] at hreturn
      simp at hreturn
    · have hconcat : m.left ++ ' ' :: '-' :: ' ' :: m.right =
          (m.left ++ ' ' :: '-' :: ' ' :: right) ++ [last] := by
        rw [hright, List.concat_eq_append, List.append_assoc]
        rfl
      rw [if_pos hreturn]
      rw [hconcat, List.getLast?_concat, Option.some.injEq] at hreturn
      refine ⟨right, by rw [hconcat, List.dropLast_concat], ?_⟩
      rw [hright, hreturn, List.concat_eq_append, splitWhitespace_append rfl]
      simp [splitWhitespace]
  · exact ⟨m.right, if_neg hreturn, rfl⟩

theorem parseMountinfoLine_line (m : Mount) :
    parseMountinfoLine (stripLineBreak m.line) = m.seen.map MountEntry.printed := by
  obtain ⟨right, hline, hright⟩ := stripLineBreak_line m
  have hsplit : splitOnce " - ".toList (stripLineBreak m.line) = some (m.left, right) := by
    rw [hline]
    exact splitOnce_left m right
  simp only [parseMountinfoLine, hsplit, hright, splitWhitespace_left, splitWhitespace_right,
    Mount.numbers, Mount.seen]
  rcases m.leftFields.flatMap words with _ | ⟨root, _ | ⟨point, _ | ⟨options, left⟩⟩⟩
  · rfl
  · rfl
  · rfl
  · rcases m.rightFields.flatMap words with _ | ⟨filesystem, _ | ⟨source, right⟩⟩
    · rfl
    · rfl
    · simp [unescape_escape, MountEntry.printed]

theorem entries_mountinfo (mounts : List Mount) :
    (lines (mountinfo mounts)).filterMap parseMountinfoLine =
      (mounts.filterMap Mount.seen).map MountEntry.printed := by
  rw [lines_mountinfo, List.filterMap_map, List.map_filterMap]
  exact List.filterMap_congr fun m _ => parseMountinfoLine_line m

end Mounts

/-! ## The mounts that are in force -/

def Mount.entry (m : Mount) : MountEntry where
  root := m.root
  mountPoint := m.mountPoint
  filesystem := m.filesystem
  source := m.source

/-- The mount that is visible at a mount point is the last one there. -/
def visibleAt (mounts : List Mount) (point : Text) : Option MountEntry :=
  (mounts.map Mount.entry).reverse.find? (·.mountPoint = point)

/-- The first mount that is seen at a mount point. -/
def firstSeenAt (mounts : List Mount) (point : Text) : Option MountEntry :=
  (mounts.filterMap Mount.seen).find? (·.mountPoint = point)

/-- The layout is supported just when the visible mounts fit. -/
def ReadsVisible (mounts : List Mount) : Prop :=
  (inspectMountinfo (mountinfo mounts)).support = .supported ↔ Fits (visibleAt mounts)

/-- No white space that the kernel leaves stands in the names of a mount, and its source is not
empty. -/
def Mount.Plain (m : Mount) : Prop :=
  m.source ≠ [] ∧ ∀ text ∈ [m.root, m.mountPoint, m.filesystem, m.source],
    ∀ c ∈ text, isUnescaped c = false

/-- No required mount point is mounted over by something else. -/
def Uncovered (mounts : List Mount) : Prop :=
  ∀ p ∈ EXPECTED_MOUNTS, (mounts.map Mount.entry).find? (·.mountPoint = p.1) = visibleAt mounts p.1

section Visible

variable {m : Mount} {mounts : List Mount} {mountAt other : Text → Option MountEntry} {text : Text}

theorem fits_congr (h : ∀ p ∈ EXPECTED_MOUNTS, mountAt p.1 = other p.1) :
    Fits mountAt ↔ Fits other := by
  refine exists_congr fun source => forall₂_congr fun p hp => ?_
  rw [h p hp]

theorem fits_printed : Fits (fun point => (mountAt point).map MountEntry.printed) ↔
    Fits mountAt := by
  have hbtrfs : ∀ text, escape text = BTRFS ↔ text = BTRFS := by
    have hescape : escape BTRFS = BTRFS := by decide
    exact fun text => ⟨fun h => escape_inj (h.trans hescape.symm), fun h => h ▸ hescape⟩
  refine exists_congr fun source => forall₂_congr fun p _ => ?_
  simp [Option.map_eq_some_iff, MountEntry.printed, hbtrfs]

theorem supported_iff_firstSeen : (inspectMountinfo (mountinfo mounts)).support = .supported ↔
    Fits (firstSeenAt mounts) := by
  refine supported_iff.trans ((fits_congr fun p _ => ?_).trans fits_printed)
  rw [entries_mountinfo, List.find?_map]
  rfl

theorem words_plain (hne : text ≠ []) (h : ∀ c ∈ text, isUnescaped c = false) :
    words text = [text] := by
  rw [words, List.splitOnP_eq_singleton h]
  simp [hne]

theorem Mount.Plain.seen (h : m.Plain) : m.seen = some m.entry := by
  obtain ⟨hsource, hplain⟩ := h
  simp only [List.forall_mem_cons] at hplain
  obtain ⟨hroot, hpoint, hfilesystem, hsourcePlain, _⟩ := hplain
  have hoptions : ∀ c ∈ m.options, isUnescaped c = false := by
    intro c hc
    rw [isUnescaped, m.isOptions.2.2 c hc, Bool.false_and]
  simp [Mount.seen, Mount.leftFields, Mount.rightFields, words_plain m.isRoot.1 hroot,
    words_plain m.isPoint.1 hpoint, words_plain m.isOptions.1 hoptions,
    words_plain m.isFilesystem hfilesystem, words_plain hsource hsourcePlain, Mount.entry]

/-- The answer is right just when the mounts that are seen first fit if the visible ones do. That
is so where no name has white space of its own and nothing covers the required mount points. -/
theorem reads_visible_iff (mounts : List Mount) :
    (ReadsVisible mounts ↔ (Fits (firstSeenAt mounts) ↔ Fits (visibleAt mounts))) ∧
      ((∀ m ∈ mounts, m.Plain) → Uncovered mounts → ReadsVisible mounts) := by
  have hiff : ReadsVisible mounts ↔ (Fits (firstSeenAt mounts) ↔ Fits (visibleAt mounts)) := by
    rw [ReadsVisible, supported_iff_firstSeen]
  refine ⟨hiff, fun hplain huncovered => hiff.mpr (fits_congr fun p hp => ?_)⟩
  have hseen : mounts.filterMap Mount.seen = mounts.map Mount.entry := by
    rw [← List.filterMap_eq_map]
    exact List.filterMap_congr fun m hm => (hplain m hm).seen
  rw [firstSeenAt, hseen]
  exact huncovered p hp

end Visible

/-- A mount of the disk of the system. -/
def mountOf (root mountPoint filesystem : String)
    (hroot : root.toList ≠ [] ∧ root.toList ≠ ['-'])
    (hpoint : mountPoint.toList ≠ [] ∧ mountPoint.toList ≠ ['-'])
    (hfilesystem : filesystem.toList ≠ []) : Mount where
  id := 26
  parent := 25
  major := 0
  minor := 32
  root := root.toList
  mountPoint := mountPoint.toList
  options := "rw,relatime".toList
  optional := ["shared:1".toList]
  filesystem := filesystem.toList
  source := "/dev/vda4".toList
  superOptions := "rw".toList
  isRoot := hroot
  isPoint := hpoint
  isOptions := by decide
  isOptional := by decide
  isFilesystem := hfilesystem

/-- The layout of the system, with a temporary file system over the home directories. -/
def coveredTable : List Mount :=
  [mountOf "/@root" "/" "btrfs" (by decide) (by decide) (by decide),
    mountOf "/@home" "/home" "btrfs" (by decide) (by decide) (by decide),
    mountOf "/@log" "/var/log" "btrfs" (by decide) (by decide) (by decide),
    mountOf "/@snapshots" "/.snapshots" "btrfs" (by decide) (by decide) (by decide),
    mountOf "/@containers" "/var/lib/containers" "btrfs" (by decide) (by decide) (by decide),
    mountOf "/@libvirt" "/var/lib/libvirt/images" "btrfs" (by decide) (by decide) (by decide),
    mountOf "/" "/home" "tmpfs" (by decide) (by decide) (by decide)]

/-- A mount that covers a required one is not noticed. -/
theorem covered_home_is_supported : ¬ ReadsVisible coveredTable := by
  intro hreads
  have hsupported : (inspectMountinfo (mountinfo coveredTable)).support = .supported := by
    decide +kernel
  obtain ⟨source, hfits⟩ := hreads.mp hsupported
  obtain ⟨entry, hentry, hfilesystem, _⟩ := hfits ("/home".toList, "/@home".toList) (by decide)
  have hvisible : visibleAt coveredTable "/home".toList =
      some ⟨"/".toList, "/home".toList, "tmpfs".toList, "/dev/vda4".toList⟩ := by decide +kernel
  obtain rfl := Option.some.inj (hvisible.symm.trans hentry)
  revert hfilesystem
  decide

end RecoveryEngine.Layout
