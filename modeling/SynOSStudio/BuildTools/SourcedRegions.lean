import SynOSStudio.BuildTools.Branding
import SynOSStudio.BuildTools.LiveRegions
import SynOSStudio.ByteStreams.Lines

/-!
# Sourcing the live menu

The rows of the live menu are put between double quotes as they are. Bash reads them back unless
one of them has a command substitution, a newline or a null character.
-/

namespace BuildTools.LiveRegions

open TextLines KeyedLists ByteStreams

/-! ## Regions -/

structure RegionData where
  id : Option Text
  name : Option Text
  locales : Option (List Text)
  keyboard : Option Text
  timezone : Option Text
  labels : Text → Option Text

def isLower (c : Char) : Bool :=
  'a' ≤ c && c ≤ 'z'

def isUpper (c : Char) : Bool :=
  'A' ≤ c && c ≤ 'Z'

def isDigit (c : Char) : Bool :=
  '0' ≤ c && c ≤ '9'

/-- `LOCALE_RE.match`, whose `$` is also in front of a newline at the end. -/
def isLocale : Text → Bool
  | a :: b :: '_' :: c :: d :: rest =>
    isLower a && isLower b && isUpper c && isUpper d &&
      ["", "\n", ".UTF-8", ".UTF-8\n"].any fun suffix => rest = suffix.toList
  | _ => false

def isKeyboardChar (c : Char) : Bool :=
  isLower c || isDigit c || c == '_' || c == '-'

def isTimezoneChar (c : Char) : Bool :=
  isUpper c || isLower c || isDigit c || c == '_' || c == '+' || c == '/' || c == '-'

def isKeyboard (text : Text) : Bool :=
  text ≠ [] && text.all isKeyboardChar

def isTimezone (text : Text) : Bool :=
  text ≠ [] && text.all isTimezoneChar

def required (id : Text) (key : String) {α : Type} : Option α → Except ManifestError α
  | some value => .ok value
  | none => .error (.missingKey id key)

def loadRegion (load : Text → Option RegionData) (id : Text) : Except ManifestError RegionData :=
  match load id with
  | some data => .ok data
  | none => .error (.missingFile id)

def checkRegion (regionId : Text) (region : Region) : Except ManifestError Unit :=
  if region.id ≠ regionId then .error (.declares regionId region.id)
  else if region.name.any isGrubSpecial then .error (.name regionId)
  else
    match region.locales.find? fun loc => ¬ isLocale loc with
    | some loc => .error (.locale regionId loc)
    | none =>
      if ¬ isKeyboard region.keyboard then .error (.keyboard regionId)
      else if ¬ isTimezone region.timezone then .error (.timezone regionId)
      else .ok ()

def resolveRegion (load : Text → Option RegionData) (regionId : Text) :
    Except ManifestError Region := do
  let data ← loadRegion load regionId
  let id ← required regionId "id" data.id
  let name ← required regionId "name" data.name
  let locales ← required regionId "locales" data.locales
  let keyboard ← required regionId "keyboard" data.keyboard
  let timezone ← required regionId "timezone" data.timezone
  let region : Region :=
    { id, name, locales := locales.map (replaceAll ".UTF-8".toList []), labels := data.labels,
      timezone, keyboard }
  checkRegion regionId region
  return region

def resolveRegions (load : Text → Option RegionData) (ids : List Text) :
    Except ManifestError (List Region) :=
  ids.mapM (resolveRegion load)

/-! ## Double quotes -/

/-- A dollar sign in front of this starts an expansion. -/
def startsExpansion : Text → Bool
  | c :: _ => isLower c || isUpper c || isDigit c || c ∈ "_\x7b([@*#?$!-".toList
  | [] => false

/-- What stands up to the closing quote, and the text behind it. There is none where the quote is
open, or where the shell would put something else in place of what is written. -/
def doubleQuoted : Text → Option (Text × Text)
  | [] => none
  | '"' :: rest => some ([], rest)
  | '`' :: _ => none
  | '$' :: rest =>
    if startsExpansion rest then none
    else (doubleQuoted rest).map fun (value, rest) => ('$' :: value, rest)
  | '\\' :: '\n' :: rest => doubleQuoted rest
  | '\\' :: c :: rest =>
    (doubleQuoted rest).map fun (value, rest) =>
      (if c ∈ ['$', '`', '"', '\\'] then c :: value else '\\' :: c :: value, rest)
  | c :: rest => (doubleQuoted rest).map fun (value, rest) => (c :: value, rest)

/-- A script loses its null characters when it is read. -/
def scriptOf (file : Text) : Text :=
  file.filter (· ≠ '\x00')

def opening : Text :=
  "export SUPPORTED_LIVE_REGIONS=\"".toList

/-- The value that a script exports first, and the text behind it. -/
def exported (script : Text) : Option (Text × Text) :=
  if opening.isPrefixOf script then doubleQuoted (script.drop opening.length) else none

def Row.fields (r : Row) : List Text :=
  [r.code, r.label, r.timezone, r.keyboard]

def rowText (r : Row) : Text :=
  List.intercalate ['|'] r.fields

def regionLines (rows : List Row) : Text :=
  List.intercalate ['\n'] (rows.map rowText)

/-- The assignment that `render` writes. -/
def renderedRows (rows : List Row) : Text :=
  opening ++ '\n' :: regionLines rows ++ '\n' :: '"' :: ['\n']

/-- The rows that a value gives. -/
def readRows (value : Text) : List (List Text) :=
  ((value.splitOn '\n').filter (· ≠ [])).map (·.splitOn '|')

section Quotes

variable {text rest : Text} {c : Char}

def isQuoteSpecial (c : Char) : Bool :=
  c == '"' || c == '\\' || c == '$' || c == '`'

theorem doubleQuoted_cons (h : isQuoteSpecial c = false) :
    doubleQuoted (c :: rest) = (doubleQuoted rest).map fun (value, rest) => (c :: value, rest) := by
  simp only [isQuoteSpecial, Bool.or_eq_false_iff, beq_eq_false_iff_ne] at h
  obtain ⟨⟨⟨hquote, hslash⟩, hdollar⟩, hback⟩ := h
  rw [doubleQuoted]
  · exact fun heq => hquote heq
  · exact fun heq => hback heq
  · exact fun heq => hdollar heq
  · exact fun _ heq _ => hslash heq
  · exact fun _ _ heq _ => hslash heq

theorem doubleQuoted_plain (h : ∀ c ∈ text, isQuoteSpecial c = false) :
    doubleQuoted (text ++ '"' :: rest) = some (text, rest) := by
  induction text with
  | nil => rfl
  | cons c text ih =>
    obtain ⟨hc, htext⟩ := List.forall_mem_cons.mp h
    rw [List.cons_append, doubleQuoted_cons hc, ih htext]
    rfl

theorem doubleQuoted_substitution (h : ∀ c ∈ text, c = '`' ∨ isQuoteSpecial c = false)
    (hback : '`' ∈ text) : doubleQuoted (text ++ rest) = none := by
  induction text with
  | nil => cases hback
  | cons c text ih =>
    obtain ⟨hc, htext⟩ := List.forall_mem_cons.mp h
    by_cases heq : c = '`'
    · rw [heq]
      rfl
    · rw [List.cons_append, doubleQuoted_cons (hc.resolve_left heq),
        ih htext ((List.mem_cons.mp hback).resolve_left fun h => heq h.symm)]
      rfl

end Quotes

/-! ## Rows behind the quotes -/

/-- The script exports a value with the fields of these rows. -/
def Sourced (rows : List Row) (rest : Text) : Prop :=
  ∃ value, exported (scriptOf (renderedRows rows ++ rest)) = some (value, '\n' :: scriptOf rest) ∧
    readRows value = rows.map Row.fields

/-- A text that has no special character of rows and shells, but for the ones that the rows are
not checked for. -/
def Checked (text : Text) : Prop :=
  ∀ c ∈ text, c = '`' ∨ c = '\n' ∨ c = '\x00' ∨ isQuoteSpecial c = false ∧ c ≠ '|'

/-- A text without the special characters that the rows are not checked for. -/
def Clean (text : Text) : Prop :=
  '`' ∉ text ∧ '\n' ∉ text ∧ '\x00' ∉ text

section Reading

variable {rows : List Row} {value rest field text : Text} {c : Char} {r : Row}

theorem readRows_framed (value : Text) : readRows ('\n' :: value ++ ['\n']) = readRows value := by
  have hsplit : ('\n' :: value ++ ['\n']).splitOn '\n' = [] :: (value.splitOn '\n' ++ [[]]) := by
    have hfront := List.splitOn_append_cons_self (a := '\n') [] (value ++ ['\n'])
    rw [List.splitOn_append_cons_self (a := '\n') value []] at hfront
    exact hfront
  rw [readRows, hsplit, readRows]
  simp

theorem not_mem_of_readRows (h : readRows value = rows.map Row.fields) (hr : r ∈ rows)
    (hfield : field ∈ r.fields) : '\n' ∉ field ∧ field ⊆ value := by
  have hmem : r.fields ∈ readRows value := h ▸ List.mem_map.mpr ⟨r, hr, rfl⟩
  obtain ⟨line, hline, hfields⟩ := List.mem_map.mp hmem
  rw [← hfields] at hfield
  have hline := List.mem_of_mem_filter hline
  constructor
  · exact fun hbreak => not_mem_of_mem_splitOn hline (mem_of_mem_splitOn hfield hbreak)
  · exact fun c hc => mem_of_mem_splitOn hline (mem_of_mem_splitOn hfield hc)

theorem mem_rowText (h : c ∈ rowText r) : c = '|' ∨ ∃ field ∈ r.fields, c ∈ field :=
  mem_intercalate h

theorem mem_regionLines (h : c ∈ regionLines rows) :
    c = '\n' ∨ c = '|' ∨ ∃ r ∈ rows, ∃ field ∈ r.fields, c ∈ field := by
  refine (mem_intercalate h).imp_right fun ⟨line, hline, hc⟩ => ?_
  obtain ⟨r, hr, rfl⟩ := List.mem_map.mp hline
  exact (mem_rowText hc).imp_right fun hfield => ⟨r, hr, hfield⟩

theorem rowText_ne_nil (r : Row) : rowText r ≠ [] := by
  simp [rowText, Row.fields]

theorem readRows_regionLines (hbar : ∀ r ∈ rows, ∀ field ∈ r.fields, '|' ∉ field)
    (hbreak : ∀ r ∈ rows, ∀ field ∈ r.fields, '\n' ∉ field) :
    readRows (regionLines rows) = rows.map Row.fields := by
  by_cases hnil : rows = []
  · rw [hnil]
    rfl
  · have hlines : ∀ line ∈ rows.map rowText, '\n' ∉ line := by
      intro line hline hmem
      obtain ⟨r, hr, rfl⟩ := List.mem_map.mp hline
      obtain heq | ⟨field, hfield, hc⟩ := mem_rowText hmem
      · exact absurd heq (by decide)
      · exact hbreak r hr field hfield hc
    have hfilter : (rows.map rowText).filter (· ≠ []) = rows.map rowText := by
      rw [List.filter_eq_self]
      intro line hline
      obtain ⟨r, _, rfl⟩ := List.mem_map.mp hline
      exact decide_eq_true (rowText_ne_nil r)
    rw [readRows, regionLines, List.splitOn_intercalate _ hlines (by simpa using hnil), hfilter,
      List.map_map]
    refine List.map_congr_left fun r hr => ?_
    exact List.splitOn_intercalate _ (hbar r hr) (by simp [Row.fields])

theorem scriptOf_append (file rest : Text) :
    scriptOf (file ++ rest) = scriptOf file ++ scriptOf rest :=
  List.filter_append ..

theorem scriptOf_eq_self (h : '\x00' ∉ text) : scriptOf text = text := by
  rw [scriptOf, List.filter_eq_self]
  intro c hc
  exact decide_eq_true fun heq => h (heq ▸ hc)

/-- What stands between the quotes. -/
def quotedRows (rows : List Row) : Text :=
  '\n' :: scriptOf (regionLines rows) ++ ['\n']

theorem exported_renderedRows (rows : List Row) (rest : Text) :
    exported (scriptOf (renderedRows rows ++ rest)) =
      doubleQuoted (quotedRows rows ++ '"' :: '\n' :: scriptOf rest) := by
  have hscript : scriptOf (renderedRows rows ++ rest) =
      opening ++ (quotedRows rows ++ '"' :: '\n' :: scriptOf rest) := by
    have hopening : scriptOf opening = opening := by decide
    rw [renderedRows, List.append_assoc, List.append_assoc, scriptOf_append, hopening, quotedRows]
    simp [scriptOf]
  rw [hscript, exported, if_pos (List.isPrefixOf_iff_prefix.mpr (List.prefix_append _ _)),
    List.drop_left]

variable (hchecked : ∀ r ∈ rows, ∀ field ∈ r.fields, Checked field)
include hchecked

theorem quotedRows_checked (hc : c ∈ quotedRows rows) : c = '`' ∨ isQuoteSpecial c = false := by
  have hlines : c = '\n' ∨ c ∈ scriptOf (regionLines rows) := by
    simpa [quotedRows, or_comm, or_assoc] using hc
  rcases hlines with rfl | hlines
  · exact .inr rfl
  · obtain ⟨hmem, hnul⟩ := List.mem_filter.mp hlines
    rcases mem_regionLines hmem with rfl | rfl | ⟨r, hr, field, hfield, hc⟩
    · exact .inr rfl
    · exact .inr rfl
    · rcases hchecked r hr field hfield c hc with heq | rfl | heq | ⟨hspecial, _⟩
      · exact .inl heq
      · exact .inr rfl
      · exact absurd heq (of_decide_eq_true hnul)
      · exact .inr hspecial

/-- What the checks miss is all that the shell can get wrong. -/
theorem sourced_iff_clean :
    Sourced rows rest ↔ ∀ r ∈ rows, ∀ field ∈ r.fields, Clean field := by
  rw [Sourced, exported_renderedRows]
  constructor
  · rintro ⟨value, hvalue, hread⟩
    have hback : '`' ∉ quotedRows rows := by
      intro hback
      rw [doubleQuoted_substitution (fun c hc => quotedRows_checked hchecked hc) hback] at hvalue
      cases hvalue
    have hplain : ∀ c ∈ quotedRows rows, isQuoteSpecial c = false := fun c hc =>
      (quotedRows_checked hchecked hc).resolve_left fun heq => hback (heq ▸ hc)
    rw [doubleQuoted_plain hplain] at hvalue
    obtain ⟨rfl, _⟩ := Prod.mk.inj (Option.some.inj hvalue)
    rw [quotedRows, readRows_framed] at hread
    intro r hr field hfield
    obtain ⟨hbreak, hsub⟩ := not_mem_of_readRows hread hr hfield
    refine ⟨fun hmem => hback ?_, hbreak, fun hmem => ?_⟩
    · exact List.mem_append_left _ (List.mem_cons_of_mem _ (hsub hmem))
    · exact absurd (List.mem_filter.mp (hsub hmem)).2 (by decide)
  · intro hclean
    have hbar : ∀ r ∈ rows, ∀ field ∈ r.fields, '|' ∉ field := by
      intro r hr field hfield hmem
      have hbar := hchecked r hr field hfield '|' hmem
      revert hbar
      decide
    have hnul : '\x00' ∉ regionLines rows := by
      intro hmem
      obtain heq | heq | ⟨r, hr, field, hfield, hc⟩ := mem_regionLines hmem
      · exact absurd heq (by decide)
      · exact absurd heq (by decide)
      · exact (hclean r hr field hfield).2.2 hc
    have hplain : ∀ c ∈ quotedRows rows, isQuoteSpecial c = false := by
      intro c hc
      refine (quotedRows_checked hchecked hc).resolve_left ?_
      rintro rfl
      have hmem : '`' ∈ regionLines rows := by
        simpa [quotedRows, scriptOf] using hc
      obtain heq | heq | ⟨r, hr, field, hfield, hc⟩ := mem_regionLines hmem
      · exact absurd heq (by decide)
      · exact absurd heq (by decide)
      · exact (hclean r hr field hfield).1 hc
    refine ⟨quotedRows rows, doubleQuoted_plain hplain, ?_⟩
    rw [quotedRows, readRows_framed, scriptOf_eq_self hnul]
    exact readRows_regionLines hbar fun r hr field hfield => (hclean r hr field hfield).2.1

end Reading

/-! ## Accepted regions -/

/-- A character that means nothing to the rows and the shell. -/
def Safe (c : Char) : Prop :=
  isQuoteSpecial c = false ∧ c ∉ ['|', '`', '\n', '\x00']

section Characters

variable {text other loc : Text} {c : Char}

theorem safe_of_class (kind : Char → Bool)
    (h : ∀ c ∈ ['"', '\\', '$', '`', '|', '\n', '\x00'], kind c = false) (hc : kind c = true) :
    Safe c := by
  have hne : ∀ d ∈ ['"', '\\', '$', '`', '|', '\n', '\x00'], c ≠ d := by
    rintro d hd rfl
    rw [h c hd] at hc
    cases hc
  simp at hne
  simp [Safe, isQuoteSpecial, hne]

theorem Safe.clean (h : ∀ c ∈ text, Safe c) : Clean text := by
  refine ⟨fun hc => ?_, fun hc => ?_, fun hc => ?_⟩
  all_goals exact (h _ hc).2 (by decide)

theorem Safe.checked (h : ∀ c ∈ text, Safe c) : Checked text := by
  intro c hc
  obtain ⟨hspecial, hother⟩ := h c hc
  exact .inr (.inr (.inr ⟨hspecial, fun heq => hother (by rw [heq]; decide)⟩))

theorem checked_of_shown (h : text.any isGrubSpecial = false) : Checked text := by
  intro c hc
  have hgrub : isGrubSpecial c = false := by simpa using List.any_eq_false.mp h c hc
  simp only [isGrubSpecial, Bool.or_eq_false_iff, beq_eq_false_iff_ne] at hgrub
  by_cases hback : c = '`'
  · exact .inl hback
  · refine .inr (.inr (.inr ⟨?_, hgrub.2⟩))
    simp [isQuoteSpecial, hgrub, hback]

theorem clean_append : Clean (text ++ other) ↔ Clean text ∧ Clean other := by
  simp only [Clean, List.mem_append, not_or]
  tauto

theorem checked_append (htext : Checked text) (hother : Checked other) :
    Checked (text ++ other) := fun c hc =>
  (List.mem_append.mp hc).elim (htext c) (hother c)

/-- A locale is safe up to the newline that can be at its end. -/
theorem safe_of_isLocale (h : isLocale loc = true) (hc : c ∈ loc) : c = '\n' ∨ Safe c := by
  unfold isLocale at h
  split at h
  · next a b d e rest =>
    simp only [Bool.and_eq_true] at h
    obtain ⟨⟨⟨⟨ha, hb⟩, hd⟩, he⟩, hrest⟩ := h
    simp only [List.mem_cons] at hc
    rcases hc with rfl | rfl | rfl | rfl | rfl | hc
    · exact .inr (safe_of_class _ (by decide) ha)
    · exact .inr (safe_of_class _ (by decide) hb)
    · exact .inr (by simp [Safe, isQuoteSpecial])
    · exact .inr (safe_of_class _ (by decide) hd)
    · exact .inr (safe_of_class _ (by decide) he)
    · obtain ⟨suffix, hsuffix, hrest⟩ := List.any_eq_true.mp hrest
      obtain rfl := of_decide_eq_true hrest
      have hsafe : ∀ suffix ∈ ["", "\n", ".UTF-8", ".UTF-8\n"], ∀ c ∈ suffix.toList,
          c = '\n' ∨ isQuoteSpecial c = false ∧ c ∉ ['|', '`', '\n', '\x00'] := by decide
      exact hsafe suffix hsuffix c hc
  · cases h

theorem isLower_language (h : isLocale loc = true) :
    ∀ c ∈ loc.takeWhile (· ≠ '_'), isLower c = true := by
  unfold isLocale at h
  split at h
  · next a b d e rest =>
    simp only [Bool.and_eq_true] at h
    obtain ⟨⟨⟨⟨ha, hb⟩, _⟩, _⟩, _⟩ := h
    intro c hc
    have hne : ∀ c, isLower c = true → c ≠ '_' := by
      rintro c hc rfl
      cases hc
    have hsub : c ∈ [a, b] := by
      simpa [List.takeWhile_cons, hne a ha, hne b hb] using hc
    rcases List.mem_cons.mp hsub with rfl | hsub
    · exact ha
    · rw [List.mem_singleton.mp hsub]
      exact hb
  · cases h

end Characters

/-- What `str.upper` makes of small letters. -/
def Capitals (upper : Text → Text) : Prop :=
  ∀ text, (∀ c ∈ text, isLower c = true) → ∀ c ∈ upper text, isUpper c = true

section Acceptance

variable {upper : Text → Text} {load : Text → Option RegionData} {ids : List Text}
  {regions : List Region} {rows : List Row} {region : Region} {listing : Region × Text}
  {id loc : Text}

/-- What the rows need of the checks of a region. -/
structure Accepted (region : Region) : Prop where
  locales : ∀ loc ∈ region.locales, isLocale loc = true
  keyboard : isKeyboard region.keyboard = true
  timezone : isTimezone region.timezone = true

theorem accepted_of_checkRegion (h : checkRegion id region = .ok ()) : Accepted region := by
  unfold checkRegion at h
  split at h
  · cases h
  split at h
  · cases h
  split at h
  · cases h
  next hfind =>
  split at h
  · cases h
  next hkeyboard =>
  split at h
  · cases h
  next htimezone =>
  rw [List.find?_eq_none] at hfind
  exact ⟨fun loc hloc => by simpa using hfind loc hloc, not_not.mp hkeyboard,
    not_not.mp htimezone⟩

theorem bind_eq_ok {α β : Type} {x : Except ManifestError α} {f : α → Except ManifestError β}
    {b : β} (h : x >>= f = .ok b) : ∃ a, x = .ok a ∧ f a = .ok b := by
  cases x with
  | error e => cases h
  | ok a => exact ⟨a, rfl, h⟩

theorem accepted_of_resolveRegion (h : resolveRegion load id = .ok region) : Accepted region := by
  unfold resolveRegion at h
  obtain ⟨data, -, h⟩ := bind_eq_ok h
  obtain ⟨declared, -, h⟩ := bind_eq_ok h
  obtain ⟨name, -, h⟩ := bind_eq_ok h
  obtain ⟨locales, -, h⟩ := bind_eq_ok h
  obtain ⟨keyboard, -, h⟩ := bind_eq_ok h
  obtain ⟨timezone, -, h⟩ := bind_eq_ok h
  obtain ⟨_, hcheck, h⟩ := bind_eq_ok h
  obtain rfl := Except.ok.inj h
  exact accepted_of_checkRegion hcheck

theorem accepted_of_resolveRegions (h : resolveRegions load ids = .ok regions) :
    ∀ region ∈ regions, Accepted region := by
  unfold resolveRegions at h
  induction ids generalizing regions with
  | nil =>
    obtain rfl := Except.ok.inj h
    simp
  | cons id ids ih =>
    rw [List.mapM_cons] at h
    cases hregion : resolveRegion load id with
    | error e => rw [hregion] at h; cases h
    | ok region =>
      cases hrest : ids.mapM (resolveRegion load) with
      | error e => rw [hregion, hrest] at h; cases h
      | ok rest =>
        rw [hregion, hrest] at h
        obtain rfl := Except.ok.inj h
        exact List.forall_mem_cons.mpr ⟨accepted_of_resolveRegion hregion, ih hrest⟩

theorem mem_of_mem_kept (h : listing ∈ kept regions) :
    listing.1 ∈ regions ∧ listing.2 ∈ listing.1.locales := by
  obtain ⟨region, hregion, hlisting⟩ :=
    List.mem_flatMap.mp ((mem_of_mem_addAll h).resolve_left List.not_mem_nil)
  obtain ⟨loc, hloc, rfl⟩ := List.mem_map.mp hlisting
  exact ⟨hregion, hloc⟩

theorem safe_keyboard (h : isKeyboard region.keyboard = true) :
    ∀ c ∈ region.keyboard, Safe c := fun c hc =>
  safe_of_class isKeyboardChar (by decide) (List.all_eq_true.mp (Bool.and_eq_true_iff.mp h).2 c hc)

theorem safe_timezone (h : isTimezone region.timezone = true) :
    ∀ c ∈ region.timezone, Safe c := fun c hc =>
  safe_of_class isTimezoneChar (by decide) (List.all_eq_true.mp (Bool.and_eq_true_iff.mp h).2 c hc)

/-- The names of languages are safe, and so is a code in capital letters. -/
theorem safe_languageName (hupper : Capitals upper)
    (h : isLocale loc = true) : ∀ c ∈ languageName upper loc, Safe c := by
  have hnames : ∀ p ∈ LANGUAGE_NAMES, ∀ c ∈ p.2.toList, (isLower c || isUpper c) = true := by
    decide +kernel
  intro c hc
  simp only [languageName] at hc
  cases hlookup : LANGUAGE_NAMES.lookup (String.ofList (loc.takeWhile (· ≠ '_'))) with
  | none =>
    rw [hlookup] at hc
    exact safe_of_class _ (by decide) (hupper _ (isLower_language h) c hc)
  | some name =>
    rw [hlookup] at hc
    obtain ⟨before, after, htable, _⟩ := List.lookup_eq_some_iff.mp hlookup
    have hmem : (String.ofList (loc.takeWhile (· ≠ '_')), name) ∈ LANGUAGE_NAMES :=
      htable ▸ List.mem_append_right before List.mem_cons_self
    rcases Bool.or_eq_true_iff.mp (hnames _ hmem c hc) with hlower | hupper
    · exact safe_of_class _ (by decide) hlower
    · exact safe_of_class _ (by decide) hupper

/-- The text that a label starts from: the one that the region has for the locale, or its name. -/
def givenText (listing : Region × Text) : Text :=
  (listing.1.labels listing.2).getD listing.1.name

theorem clean_wantedLabel (hupper : Capitals upper) (h : isLocale listing.2 = true) :
    Clean (wantedLabel upper listing.1 listing.2) ↔ Clean (givenText listing) := by
  unfold wantedLabel givenText
  cases listing.1.labels listing.2 with
  | some label => rfl
  | none =>
    rw [Option.getD_none, Option.getD_none]
    split
    · have hdash : Clean " - ".toList := ⟨by decide, by decide, by decide⟩
      have hlanguage := Safe.clean (safe_languageName hupper h)
      rw [clean_append, clean_append]
      exact ⟨fun h => h.1.1, fun h => ⟨⟨h, hdash⟩, hlanguage⟩⟩
    · rfl

theorem fields_checked (hrows : liveRegionRows upper regions = .ok rows)
    (hregions : ∀ region ∈ regions, Accepted region) :
    ∀ r ∈ rows, ∀ field ∈ r.fields, Checked field := by
  intro r hr
  rw [liveRegionRows_eq hrows] at hr
  obtain ⟨listing, hlisting, label, rfl, hlabel⟩ := exists_listing_of_mem_stateOf hr
  obtain ⟨hregion, hloc⟩ := mem_of_mem_kept hlisting
  have haccepted := hregions _ hregion
  have hlocale : Checked listing.2 := by
    intro c hc
    rcases safe_of_isLocale (haccepted.locales _ hloc) hc with heq | hsafe
    · exact .inr (.inl heq)
    · have hone : Checked [c] := Safe.checked (by simpa using hsafe)
      exact hone c List.mem_cons_self
  have hwanted : Checked (wish upper listing).label :=
    checked_of_shown (shown_of_mem_kept hrows hlisting)
  have hlabel : Checked label := by
    rcases hlabel with rfl | rfl
    · exact hwanted
    · have hopen : Checked [' ', '('] := by simp [Checked, isQuoteSpecial]
      have hclose : Checked [')'] := by simp [Checked, isQuoteSpecial]
      have hsuffix := checked_append (checked_append hopen hlocale) hclose
      simpa [wish, suffixed] using checked_append hwanted hsuffix
  simp only [Row.fields, row, List.forall_mem_cons]
  exact ⟨hlocale, hlabel, Safe.checked (safe_timezone haccepted.timezone),
    Safe.checked (safe_keyboard haccepted.keyboard), by simp⟩

/-- What the checks of a listing miss. -/
def Quotable (listing : Region × Text) : Prop :=
  Clean (givenText listing) ∧ '\n' ∉ listing.2

theorem clean_locale (h : isLocale loc = true) (hbreak : '\n' ∉ loc) : Clean loc :=
  Safe.clean fun _ hc => (safe_of_isLocale h hc).resolve_left fun heq => hbreak (heq ▸ hc)

theorem fields_clean_iff (hupper : Capitals upper) (hrows : liveRegionRows upper regions = .ok rows)
    (hregions : ∀ region ∈ regions, Accepted region) :
    (∀ r ∈ rows, ∀ field ∈ r.fields, Clean field) ↔ ∀ listing ∈ kept regions, Quotable listing := by
  obtain rfl := liveRegionRows_eq hrows
  have hlocale : ∀ listing ∈ kept regions, isLocale listing.2 = true := fun listing hlisting =>
    (hregions _ (mem_of_mem_kept hlisting).1).locales _ (mem_of_mem_kept hlisting).2
  constructor
  · intro hclean listing hlisting
    obtain ⟨label, hrow, hlabel⟩ := exists_row_of_mem upper hlisting
    have hfields := hclean _ hrow
    simp only [Row.fields, row, List.forall_mem_cons] at hfields
    refine ⟨(clean_wantedLabel hupper (hlocale listing hlisting)).mp ?_, hfields.1.2.1⟩
    rcases hlabel with rfl | rfl
    · exact hfields.2.1
    · exact (clean_append.mp (clean_append.mp hfields.2.1).1).1
  · intro hquotable r hr
    obtain ⟨listing, hlisting, label, rfl, hlabel⟩ := exists_listing_of_mem_stateOf hr
    obtain ⟨hgiven, hbreak⟩ := hquotable listing hlisting
    have haccepted := hregions _ (mem_of_mem_kept hlisting).1
    have hcode := clean_locale (hlocale listing hlisting) hbreak
    have hwanted : Clean (wish upper listing).label :=
      (clean_wantedLabel hupper (hlocale listing hlisting)).mpr hgiven
    have hlabel : Clean label := by
      rcases hlabel with rfl | rfl
      · exact hwanted
      · have hopen : Clean [' ', '('] := ⟨by decide, by decide, by decide⟩
        have hclose : Clean [')'] := ⟨by decide, by decide, by decide⟩
        have hsuffix := clean_append.mpr ⟨clean_append.mpr ⟨hopen, hcode⟩, hclose⟩
        simpa [wish, suffixed] using clean_append.mpr ⟨hwanted, hsuffix⟩
    simp only [Row.fields, row, List.forall_mem_cons]
    exact ⟨hcode, hlabel, Safe.clean (safe_timezone haccepted.timezone),
      Safe.clean (safe_keyboard haccepted.keyboard), by simp⟩

/-- A sourced script gives the rows back just when the texts of the menu are without the special
characters that no check looks for. -/
theorem sourced_iff_quotable (hupper : Capitals upper)
    (hregions : resolveRegions load ids = .ok regions)
    (hrows : liveRegionRows upper regions = .ok rows) (rest : Text) :
    Sourced rows rest ↔ ∀ listing ∈ kept regions, Quotable listing := by
  have haccepted := accepted_of_resolveRegions hregions
  rw [sourced_iff_clean (fields_checked hrows haccepted)]
  exact fields_clean_iff hupper hrows haccepted

end Acceptance

/-- One region with one locale. -/
def franceNamed (name : String) (regionId : Text) : Option RegionData :=
  if regionId = "fr".toList then
    some ⟨some "fr".toList, some name.toList, some ["fr_FR.UTF-8".toList], some "fr".toList,
      some "Europe/Paris".toList, fun _ => none⟩
  else none

theorem capitals_toUpper : Capitals (List.map Char.toUpper) := by
  intro text h c hc
  obtain ⟨d, hd, rfl⟩ := List.mem_map.mp hc
  have hascii : ∀ n < 128, isLower (Char.ofNat n) = true →
      isUpper (Char.ofNat n).toUpper = true := by
    decide
  have hlower := h d hd
  have hlast : d ≤ 'z' := of_decide_eq_true (Bool.and_eq_true_iff.mp hlower).2
  have hbound : d.toNat ≤ 'z'.toNat := hlast
  have hd := hascii d.toNat (hbound.trans_lt (by decide))
  rw [Char.ofNat_toNat] at hd
  exact hd hlower

theorem france_sourced :
    Sourced [row (region "France" "fr_FR", "fr_FR".toList) "France".toList] [] ↔
      ∀ listing ∈ kept [region "France" "fr_FR"], Quotable listing := by
  have hregions : resolveRegions (franceNamed "France") ["fr".toList] =
      .ok [region "France" "fr_FR"] := rfl
  exact sourced_iff_quotable capitals_toUpper hregions rfl []

/-- A name can have a command substitution. -/
theorem named_command_is_run : ∃ load ids regions rows,
    resolveRegions load ids = .ok regions ∧
      liveRegionRows (List.map Char.toUpper) regions = .ok rows ∧ ¬ Sourced rows [] := by
  refine ⟨franceNamed "`reboot`", ["fr".toList], [region "`reboot`" "fr_FR"],
    [row (region "`reboot`" "fr_FR", "fr_FR".toList) "`reboot`".toList], ?_, rfl, ?_⟩
  · rfl
  · rintro ⟨value, hvalue, -⟩
    have hnone : exported (scriptOf (renderedRows
        [row (region "`reboot`" "fr_FR", "fr_FR".toList) "`reboot`".toList] ++ [])) = none := by
      decide +kernel
    rw [hnone] at hvalue
    cases hvalue

end BuildTools.LiveRegions
