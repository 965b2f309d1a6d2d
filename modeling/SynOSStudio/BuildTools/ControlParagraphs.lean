import SynOSStudio.BuildTools.ControlFields

/-!
# Paragraphs of fields

A control file as fields with their continuation lines, and what its two passes do to the fields:
the lines of a paragraph are turned into the lines of another paragraph.
-/

namespace BuildTools.ControlFields

open TextLines TextPasses

/-- A field with its continuation lines; the name may be for one base alone. -/
structure Field where
  name : Text
  base : Option Text
  first : Text
  continuation : List Text
  deriving DecidableEq

namespace Field

def label (f : Field) : Text :=
  match f.base with
  | none => f.name
  | some base => f.name ++ '[' :: (base ++ [']'])

def header (f : Field) : Text := f.label ++ ':' :: f.first

def lines (f : Field) : List Text := f.header :: f.continuation

structure WellFormed (f : Field) : Prop where
  name_ne : f.name ≠ []
  name_chars : ∀ c ∈ f.name, c ≠ ':' ∧ c ≠ '[' ∧ isSpace c = false
  continued : ∀ line ∈ f.continuation, isContinuation line = true ∧ line.all isSpace = false
  newline : ∀ line ∈ f.first :: f.continuation, '\n' ∉ line

end Field

def render (fields : List Field) (ended : Bool) : Text :=
  List.intercalate ['\n'] (fields.flatMap Field.lines ++ if ended then [[]] else [])

section Lines

variable {name base first rest line : Text} {sep : Char} {p : Char → Bool}

theorem takeWhile_name (h : ∀ c ∈ name, p c = true) (hsep : p sep = false) :
    (name ++ sep :: rest).takeWhile p = name := by
  rw [List.takeWhile_append_of_pos h, List.takeWhile_cons_of_neg (by simp [hsep]), List.append_nil]

theorem dropWhile_name (h : ∀ c ∈ name, p c = true) (hsep : p sep = false) :
    (name ++ sep :: rest).dropWhile p = sep :: rest := by
  rw [List.dropWhile_append_of_pos h, List.dropWhile_cons_of_neg (by simp [hsep])]

/-- What a pattern for names stops at is a character of the name or the one behind it. -/
theorem dropWhile_head {c : Char} (h : (name ++ sep :: rest).dropWhile p = c :: line) :
    c ∈ name ∨ (c = sep ∧ ∀ c ∈ name, p c = true) ∨ p sep = true := by
  by_cases hsep : p sep = true
  · exact .inr (.inr hsep)
  · induction name with
    | nil =>
      rw [List.nil_append, List.dropWhile_cons_of_neg hsep] at h
      exact .inr (.inl ⟨(List.cons.inj h).1.symm, fun _ hc => absurd hc List.not_mem_nil⟩)
    | cons d name ih =>
      rw [List.cons_append] at h
      by_cases hd : p d = true
      · rw [List.dropWhile_cons_of_pos hd] at h
        rcases ih h with hc | ⟨hc, hall⟩ | hc
        · exact .inl (List.mem_cons_of_mem _ hc)
        · exact .inr (.inl ⟨hc, List.forall_mem_cons.mpr ⟨hd, hall⟩⟩)
        · exact absurd hc hsep
      · rw [List.dropWhile_cons_of_neg hd] at h
        exact .inl ((List.cons.inj h).1 ▸ List.mem_cons_self)

theorem bracketed_suffixed (hname : ∀ c ∈ name, isFieldChar c = true) (hne : name ≠ [])
    (hbase : ∀ c ∈ base, isBaseChar c = true) (hbase_ne : base ≠ []) :
    bracketed (name ++ '[' :: (base ++ ']' :: ':' :: first)) =
      some (name, base, first.dropWhile isSpace) := by
  have hdrop : (name ++ '[' :: (base ++ ']' :: ':' :: first)).dropWhile isFieldChar =
      '[' :: (base ++ ']' :: ':' :: first) := dropWhile_name hname rfl
  have htake : (name ++ '[' :: (base ++ ']' :: ':' :: first)).takeWhile isFieldChar = name :=
    takeWhile_name hname rfl
  have hdrop' : (base ++ ']' :: ':' :: first).dropWhile isBaseChar = ']' :: ':' :: first :=
    dropWhile_name hbase rfl
  have htake' : (base ++ ']' :: ':' :: first).takeWhile isBaseChar = base :=
    takeWhile_name hbase rfl
  rw [bracketed, hdrop]
  simp only [htake, htake', hdrop', hne, hbase_ne, or_self, if_false, valueOf, Option.map_some]

theorem bracketed_plain (hname : '[' ∉ name) : bracketed (name ++ ':' :: first) = none := by
  unfold bracketed
  split
  · next rest heq =>
    rcases dropWhile_head heq with hmem | ⟨hc, -⟩ | hsep
    · exact absurd hmem hname
    · exact absurd hc (by decide)
    · exact absurd hsep (by decide)
  · rfl

theorem headerName_plain (hne : name ≠ []) (hname : ∀ c ∈ name, isFieldChar c = true) :
    headerName (name ++ ':' :: first) = some name := by
  have hdrop : (name ++ ':' :: first).dropWhile isFieldChar = ':' :: first :=
    dropWhile_name hname rfl
  have htake : (name ++ ':' :: first).takeWhile isFieldChar = name := takeWhile_name hname rfl
  rw [headerName, hdrop]
  simp only [htake, hne, if_false]

/-- A name with other characters is no name to the pattern. -/
theorem headerName_other (hcolon : ':' ∉ name) (hname : ¬ ∀ c ∈ name, isFieldChar c = true) :
    headerName (name ++ ':' :: first) = none := by
  unfold headerName
  split
  · next rest heq =>
    rcases dropWhile_head heq with hmem | ⟨-, hall⟩ | hsep
    · exact absurd hmem hcolon
    · exact absurd hall hname
    · exact absurd hsep (by decide)
  · rfl

theorem prefix_header {word : Text} (hword : ':' ∉ word) (hname : ':' ∉ name) :
    (word ++ [':']).isPrefixOf (name ++ ':' :: first) = true ↔ name = word := by
  rw [List.isPrefixOf_iff_prefix]
  constructor
  · rintro ⟨tail, htail⟩
    have hcut : ∀ text tail : Text, ':' ∉ text → (text ++ ':' :: tail).takeWhile (· ≠ ':') = text :=
      fun text tail h => takeWhile_name (fun c hc => decide_eq_true fun heq => h (heq ▸ hc)) rfl
    have h := congrArg (List.takeWhile (· ≠ ':')) htail
    rw [List.append_assoc, List.singleton_append, hcut _ _ hword, hcut _ _ hname] at h
    exact h.symm
  · rintro rfl
    exact ⟨first, by simp⟩

/-- A continuation line matches none of the patterns. -/
structure Unmatched (line : Text) : Prop where
  bracketed : bracketed line = none
  headerName : headerName line = none
  isDescription : isDescription line = false
  isEmptyField : isEmptyField line = false
  isMaintainer : (maintainer ++ [':']).isPrefixOf line = false

theorem unmatched_of_isContinuation (h : isContinuation line = true) : Unmatched line := by
  cases line with
  | nil => cases h
  | cons c line =>
    have hc : c = ' ' ∨ c = '\t' := by simpa [isContinuation] using h
    rcases hc with rfl | rfl <;> exact ⟨rfl, rfl, rfl, rfl, rfl⟩

theorem unmatched_nil : Unmatched [] := ⟨rfl, rfl, rfl, rfl, rfl⟩

end Lines

/-! ## Fields of a base -/

/-- A paragraph; no two of its fields have one name for one base. -/
structure Paragraph where
  fields : List Field
  nonempty : fields ≠ []
  wellFormed : ∀ f ∈ fields, f.WellFormed
  distinct : (fields.map fun f => (f.name, f.base)).Nodup

/-- What the patterns know of a field: the name and the base have only their characters, and a
line that is left out has no continuation lines. -/
structure Field.Matched (f : Field) : Prop where
  base_ne : f.base ≠ some []
  base_chars : ∀ base ∈ f.base, ∀ c ∈ base, isBaseChar c = true
  name_chars : f.base ≠ none → ∀ c ∈ f.name, isFieldChar c = true
  single : f.base ≠ none → f.continuation = []

/-- The plain field that a variant is written as. -/
def Field.asPlain (g : Field) : Field := ⟨g.name, none, ' ' :: g.first.dropWhile isSpace, []⟩

def Field.item (g : Field) : Text × Text := (g.name, g.first.dropWhile isSpace)

def replaceField (variants : List Field) (f : Field) : Field :=
  match variants.find? (·.name = f.name) with
  | some g => { g.asPlain with continuation := f.continuation }
  | none => f

def insertField (fields : List Field) (g : Field) : List Field :=
  fields.takeWhile (·.name ≠ description) ++ g :: fields.dropWhile (·.name ≠ description)

def plainFields (fields : List Field) : List Field :=
  fields.filter (·.base = none)

def variantFields (base : Text) (fields : List Field) : List Field :=
  fields.filter (·.base = some base)

/-- The variants of a base that have no plain field. -/
def newFields (base : Text) (fields : List Field) : List Field :=
  (variantFields base fields).filter fun g => ¬ (plainFields fields).any (·.name = g.name)

/-- What is left of a paragraph for one base. -/
def selectFields (base : Text) (fields : List Field) : List Field :=
  ((newFields base fields).map Field.asPlain).foldl insertField
    ((plainFields fields).map (replaceField (variantFields base fields)))

section Selection

variable {f g : Field} {fields : List Field} {base : Text} {overrides : List (Text × Text)}
  {tail : List Text}

theorem Field.WellFormed.bracket_not_mem (h : f.WellFormed) : '[' ∉ f.name :=
  fun hmem => (h.name_chars _ hmem).2.1 rfl

theorem Field.WellFormed.colon_not_mem (h : f.WellFormed) : ':' ∉ f.name :=
  fun hmem => (h.name_chars _ hmem).1 rfl

theorem valueLine_item (g : Field) : valueLine g.item = g.asPlain.header := rfl

theorem header_of_plain (h : f.base = none) : f.header = f.name ++ ':' :: f.first := by
  rw [Field.header, Field.label, h]

theorem bracketed_header_plain (hf : f.WellFormed) (h : f.base = none) :
    bracketed f.header = none := by
  rw [header_of_plain h]
  exact bracketed_plain hf.bracket_not_mem

theorem bracketed_header_variant (hf : f.WellFormed) (hm : f.Matched) {own : Text}
    (h : f.base = some own) :
    bracketed f.header = some (f.name, own, f.first.dropWhile isSpace) := by
  have hheader : f.header = f.name ++ '[' :: (own ++ ']' :: ':' :: f.first) := by
    simp [Field.header, Field.label, h]
  rw [hheader]
  exact bracketed_suffixed (hm.name_chars (by simp [h])) hf.name_ne (hm.base_chars own h)
    fun hnil => hm.base_ne (by rw [h, hnil])

theorem setItem_new {key value : Text} (h : key ∉ overrides.map Prod.fst) :
    setItem overrides key value = overrides ++ [(key, value)] := by
  have hany : overrides.any (·.1 = key) = false := by
    rw [List.any_eq_false]
    intro item hitem heq
    exact h (List.mem_map.mpr ⟨item, hitem, of_decide_eq_true heq⟩)
  rw [setItem, hany]
  rfl

theorem collect_unmatched {lines : List Text} (h : ∀ line ∈ lines, Unmatched line) :
    lines.foldl (collect base) overrides = overrides := by
  induction lines with
  | nil => rfl
  | cons line lines ih =>
    obtain ⟨hline, hlines⟩ := List.forall_mem_cons.mp h
    rw [List.foldl_cons, collect, hline.bracketed]
    exact ih hlines

theorem unmatched_continuation (hf : f.WellFormed) : ∀ line ∈ f.continuation, Unmatched line :=
  fun line hline => unmatched_of_isContinuation (hf.continued line hline).1

/-- The lines of one field add its value, where the field is for the base. -/
theorem collect_lines (hf : f.WellFormed) (hm : f.Matched)
    (hnew : f.base = some base → f.name ∉ overrides.map Prod.fst) :
    f.lines.foldl (collect base) overrides =
      overrides ++ (variantFields base [f]).map Field.item := by
  rw [Field.lines, List.foldl_cons, collect_unmatched (unmatched_continuation hf)]
  cases h : f.base with
  | none =>
    rw [collect, bracketed_header_plain hf h]
    simp [variantFields, h]
  | some own =>
    rw [collect, bracketed_header_variant hf hm h]
    by_cases hown : own = base
    · subst hown
      simp only [if_true]
      rw [setItem_new (hnew h)]
      simp [variantFields, h, Field.item]
    · simp [variantFields, h, hown]

theorem variantFields_cons (base : Text) (f : Field) (fields : List Field) :
    variantFields base (f :: fields) = variantFields base [f] ++ variantFields base fields := by
  rw [← List.singleton_append, variantFields, List.filter_append]
  rfl

theorem collect_fields (hf : ∀ f ∈ fields, f.WellFormed) (hm : ∀ f ∈ fields, f.Matched)
    (hnodup : (overrides.map Prod.fst ++ (variantFields base fields).map Field.name).Nodup) :
    (fields.flatMap Field.lines).foldl (collect base) overrides =
      overrides ++ (variantFields base fields).map Field.item := by
  induction fields generalizing overrides with
  | nil => simp [variantFields]
  | cons f fields ih =>
    obtain ⟨hf, hfs⟩ := List.forall_mem_cons.mp hf
    obtain ⟨hm, hms⟩ := List.forall_mem_cons.mp hm
    rw [variantFields_cons, List.map_append] at hnodup ⊢
    have hnew : f.base = some base → f.name ∉ overrides.map Prod.fst := by
      intro hbase hmem
      have hhead : f.name ∈ (variantFields base [f]).map Field.name ++
          (variantFields base fields).map Field.name :=
        List.mem_append_left _ (by simp [variantFields, hbase])
      exact (List.nodup_append.mp hnodup).2.2 _ hmem _ hhead rfl
    rw [List.flatMap_cons, List.foldl_append, collect_lines hf hm hnew, ih hfs hms,
      ← List.append_assoc]
    have hkeys : (overrides ++ (variantFields base [f]).map Field.item).map Prod.fst =
        overrides.map Prod.fst ++ (variantFields base [f]).map Field.name := by
      simp [Field.item, Function.comp_def]
    rw [hkeys, List.append_assoc]
    exact hnodup

/-- The lines without a base are the lines of the plain fields. -/
theorem kept_lines (hf : ∀ f ∈ fields, f.WellFormed) (hm : ∀ f ∈ fields, f.Matched) :
    (fields.flatMap Field.lines).filter (bracketed · = none) =
      (plainFields fields).flatMap Field.lines := by
  induction fields with
  | nil => rfl
  | cons f fields ih =>
    obtain ⟨hf, hfs⟩ := List.forall_mem_cons.mp hf
    obtain ⟨hm, hms⟩ := List.forall_mem_cons.mp hm
    have hcontinued : f.continuation.filter (bracketed · = none) = f.continuation :=
      List.filter_eq_self.mpr fun line hline =>
        decide_eq_true (unmatched_continuation hf line hline).bracketed
    rw [List.flatMap_cons, List.filter_append, ih hfs hms]
    cases h : f.base with
    | none =>
      have hheader : (bracketed f.header = none) := bracketed_header_plain hf h
      rw [Field.lines, List.filter_cons_of_pos (by simp [hheader]), hcontinued]
      simp [plainFields, h, Field.lines]
    | some own =>
      have hheader := bracketed_header_variant hf hm h
      rw [Field.lines, hm.single (by simp [h]), List.filter_cons_of_neg (by simp [hheader])]
      simp [plainFields, h]

/-- A field without a base, as the passes need it. -/
structure Field.Plain (f : Field) : Prop where
  base : f.base = none
  name_ne : f.name ≠ []
  colon : ':' ∉ f.name
  continued : ∀ line ∈ f.continuation, Unmatched line

theorem plain_of_mem (hf : ∀ f ∈ fields, f.WellFormed) (h : f ∈ plainFields fields) : f.Plain := by
  obtain ⟨hmem, hbase⟩ := List.mem_filter.mp h
  exact ⟨of_decide_eq_true hbase, (hf f hmem).name_ne, (hf f hmem).colon_not_mem,
    unmatched_continuation (hf f hmem)⟩

theorem plain_asPlain (hg : g.WellFormed) : g.asPlain.Plain :=
  ⟨rfl, hg.name_ne, hg.colon_not_mem, fun _ h => absurd h List.not_mem_nil⟩

section Replacing

variable {variants : List Field} (hchars : ∀ g ∈ variants, ∀ c ∈ g.name, isFieldChar c = true)
include hchars

theorem replaceLine_header (h : f.Plain) :
    replaceLine (variants.map Field.item) f.header = (replaceField variants f).header := by
  have hfind : ∀ name, (variants.map Field.item).find? (·.1 = name) =
      (variants.find? (·.name = name)).map Field.item := fun name => List.find?_map ..
  rw [header_of_plain h.base]
  by_cases hname : ∀ c ∈ f.name, isFieldChar c = true
  · rw [replaceLine, headerName_plain h.name_ne hname, Option.bind_some, hfind, replaceField]
    cases hg : variants.find? (·.name = f.name) with
    | none => exact (header_of_plain h.base).symm
    | some g => rfl
  · have hnone : variants.find? (·.name = f.name) = none := by
      rw [List.find?_eq_none]
      intro g hg heq
      exact hname ((of_decide_eq_true heq) ▸ hchars g hg)
    rw [replaceLine, headerName_other h.colon hname, Option.bind_none, replaceField, hnone]
    exact (header_of_plain h.base).symm

theorem replaceLine_lines (h : ∀ f ∈ fields, f.Plain) :
    (fields.flatMap Field.lines).map (replaceLine (variants.map Field.item)) =
      (fields.map (replaceField variants)).flatMap Field.lines := by
  rw [List.map_flatMap, List.flatMap_map]
  refine List.flatMap_congr fun f hf => ?_
  have hcontinued : f.continuation.map (replaceLine (variants.map Field.item)) =
      f.continuation := by
    refine List.map_congr_left (fun line hline => ?_) |>.trans (List.map_id _)
    rw [replaceLine, ((h f hf).continued line hline).headerName]
    rfl
  have hkept : (replaceField variants f).continuation = f.continuation := by
    unfold replaceField
    split <;> rfl
  rw [Field.lines, List.map_cons, hcontinued, replaceLine_header hchars (h f hf), Field.lines,
    hkept]

theorem any_headerName (h : ∀ f ∈ fields, f.Plain) (hg : g ∈ variants)
    (htail : ∀ line ∈ tail, Unmatched line) :
    (fields.flatMap Field.lines ++ tail).any (headerName · = some g.name) =
      fields.any (·.name = g.name) := by
  rw [Bool.eq_iff_iff, List.any_eq_true, List.any_eq_true]
  constructor
  · rintro ⟨line, hline, heq⟩
    have heq : headerName line = some g.name := of_decide_eq_true heq
    rcases List.mem_append.mp hline with hline | hline
    · obtain ⟨f, hf, hline⟩ := List.mem_flatMap.mp hline
      rcases List.mem_cons.mp hline with rfl | hline
      · rw [header_of_plain (h f hf).base] at heq
        by_cases hname : ∀ c ∈ f.name, isFieldChar c = true
        · rw [headerName_plain (h f hf).name_ne hname] at heq
          exact ⟨f, hf, decide_eq_true (Option.some_inj.mp heq)⟩
        · rw [headerName_other (h f hf).colon hname] at heq
          cases heq
      · rw [((h f hf).continued line hline).headerName] at heq
        cases heq
    · rw [(htail line hline).headerName] at heq
      cases heq
  · rintro ⟨f, hf, heq⟩
    have heq : f.name = g.name := of_decide_eq_true heq
    refine ⟨f.header, List.mem_append_left _ (List.mem_flatMap.mpr ⟨f, hf, List.mem_cons_self⟩), ?_⟩
    rw [header_of_plain (h f hf).base,
      headerName_plain (h f hf).name_ne (heq ▸ hchars g hg), heq]
    exact decide_eq_true rfl

end Replacing

theorem isDescription_header (h : f.Plain) :
    isDescription f.header = true ↔ f.name = description := by
  rw [header_of_plain h.base]
  exact prefix_header (by decide) h.colon

/-- The lines in front of the first description are those of the fields in front of it. -/
theorem takeWhile_lines (h : ∀ f ∈ fields, f.Plain) (htail : ∀ line ∈ tail, Unmatched line) :
    (fields.flatMap Field.lines ++ tail).takeWhile (¬ isDescription ·) =
        (fields.takeWhile (·.name ≠ description)).flatMap Field.lines ++
          (if fields.any (·.name = description) then [] else tail) ∧
      (fields.flatMap Field.lines ++ tail).dropWhile (¬ isDescription ·) =
        (fields.dropWhile (·.name ≠ description)).flatMap Field.lines ++
          (if fields.any (·.name = description) then tail else []) := by
  have hskip : ∀ lines rest : List Text, (∀ line ∈ lines, isDescription line = false) →
      (lines ++ rest).takeWhile (¬ isDescription ·) = lines ++ rest.takeWhile (¬ isDescription ·) ∧
      (lines ++ rest).dropWhile (¬ isDescription ·) = rest.dropWhile (¬ isDescription ·) := by
    intro lines rest hlines
    have hall : ∀ line ∈ lines, decide (¬ isDescription line = true) = true := fun line hline =>
      decide_eq_true (by rw [hlines line hline]; exact Bool.false_ne_true)
    exact ⟨List.takeWhile_append_of_pos hall, List.dropWhile_append_of_pos hall⟩
  induction fields with
  | nil =>
    have hrest := hskip tail [] fun line hline => (htail line hline).isDescription
    simpa using hrest
  | cons f fields ih =>
    obtain ⟨hf, hfs⟩ := List.forall_mem_cons.mp h
    obtain ⟨htake, hdrop⟩ := ih hfs
    by_cases hname : f.name = description
    · have hheader : isDescription f.header = true := (isDescription_header hf).mpr hname
      simp [Field.lines, hname, hheader]
    · have hlines : ∀ line ∈ f.lines, isDescription line = false := by
        intro line hline
        rcases List.mem_cons.mp hline with rfl | hline
        · exact Bool.eq_false_iff.mpr fun heq => hname ((isDescription_header hf).mp heq)
        · exact (hf.continued line hline).isDescription
      obtain ⟨htake', hdrop'⟩ := hskip f.lines (fields.flatMap Field.lines ++ tail) hlines
      rw [List.flatMap_cons, List.append_assoc, htake', hdrop', htake, hdrop]
      simp [hname]

theorem insertLine_lines (h : ∀ f ∈ fields, f.Plain) (htail : ∀ line ∈ tail, Unmatched line)
    (hplace : tail = [] ∨ fields.any (·.name = description) = true) :
    insertLine (fields.flatMap Field.lines ++ tail) g.item =
      (insertField fields g.asPlain).flatMap Field.lines ++ tail := by
  obtain ⟨htake, hdrop⟩ := takeWhile_lines h htail
  rw [insertLine, htake, hdrop, insertField, List.flatMap_append, List.flatMap_cons, valueLine_item,
    Field.lines]
  rcases hplace with rfl | hany
  · simp [Field.asPlain]
  · simp [hany, Field.asPlain]

theorem plain_insertField (h : ∀ f ∈ fields, f.Plain) (hg : g.Plain) :
    ∀ f ∈ insertField fields g, f.Plain := by
  intro f hf
  rcases List.mem_append.mp hf with hf | hf
  · exact h f ((List.takeWhile_subset _) hf)
  · rcases List.mem_cons.mp hf with rfl | hf
    · exact hg
    · exact h f ((List.dropWhile_subset _) hf)

theorem any_insertField (h : fields.any (·.name = description) = true) :
    (insertField fields g).any (·.name = description) = true := by
  have hsplit : (fields.takeWhile (·.name ≠ description) ++
      fields.dropWhile (·.name ≠ description)).any (·.name = description) = true := by
    rwa [List.takeWhile_append_dropWhile]
  rw [List.any_append, Bool.or_eq_true] at hsplit
  rw [insertField, List.any_append, List.any_cons]
  rcases hsplit with h | h
  · rw [h, Bool.true_or]
  · rw [h, Bool.or_true, Bool.or_true]

theorem foldl_insertLine {added : List Field} (h : ∀ f ∈ fields, f.Plain)
    (hadded : ∀ g ∈ added, g.asPlain.Plain) (htail : ∀ line ∈ tail, Unmatched line)
    (hplace : tail = [] ∨ added = [] ∨ fields.any (·.name = description) = true) :
    (added.map Field.item).foldl insertLine (fields.flatMap Field.lines ++ tail) =
      ((added.map Field.asPlain).foldl insertField fields).flatMap Field.lines ++ tail := by
  induction added generalizing fields with
  | nil => rfl
  | cons g added ih =>
    obtain ⟨hg, hadded⟩ := List.forall_mem_cons.mp hadded
    have hplace' : tail = [] ∨ fields.any (·.name = description) = true :=
      hplace.imp_right fun h => h.resolve_left (List.cons_ne_nil _ _)
    rw [List.map_cons, List.foldl_cons, insertLine_lines h htail hplace', List.map_cons,
      List.foldl_cons]
    exact ih (plain_insertField h hg) hadded (hplace'.imp_right fun h => Or.inr (any_insertField h))

theorem mem_of_find? {name : Text} (h : fields.find? (·.name = name) = some f) :
    f ∈ fields ∧ f.name = name :=
  ⟨List.mem_of_find?_eq_some h, by simpa using List.find?_some h⟩

theorem name_replaceField {variants : List Field} : (replaceField variants f).name = f.name := by
  unfold replaceField
  split
  · next g hg => exact (mem_of_find? hg).2
  · rfl

theorem plain_replaceField {variants : List Field} (h : f.Plain) :
    (replaceField variants f).Plain := by
  unfold replaceField
  split
  · next g hg =>
    have hname := (mem_of_find? hg).2
    exact ⟨rfl, hname ▸ h.name_ne, hname ▸ h.colon, h.continued⟩
  · exact h

theorem newline_not_mem_header (hf : f.WellFormed) (hm : f.Matched) : '\n' ∉ f.header := by
  have hname : '\n' ∉ f.name := fun h => absurd (hf.name_chars _ h).2.2 (by decide)
  have hfirst : '\n' ∉ f.first := hf.newline _ List.mem_cons_self
  have hlabel : '\n' ∉ f.label := by
    unfold Field.label
    split
    · exact hname
    · next own h =>
      have hown : '\n' ∉ own := fun hmem => absurd (hm.base_chars own h _ hmem) (by decide)
      simp [hname, hown]
  simp [Field.header, hlabel, hfirst]

theorem newline_not_mem_lines (hf : ∀ f ∈ fields, f.WellFormed) (hm : ∀ f ∈ fields, f.Matched) :
    ∀ line ∈ fields.flatMap Field.lines, '\n' ∉ line := by
  intro line hline
  obtain ⟨f, hmem, hline⟩ := List.mem_flatMap.mp hline
  rcases List.mem_cons.mp hline with rfl | hline
  · exact newline_not_mem_header (hf f hmem) (hm f hmem)
  · exact (hf f hmem).newline line (List.mem_cons_of_mem _ hline)

/-- The line behind the last newline. -/
def lastLine (ended : Bool) : List Text := if ended then [[]] else []

theorem unmatched_lastLine (ended : Bool) : ∀ line ∈ lastLine ended, Unmatched line := by
  cases ended with
  | false => exact fun _ h => absurd h List.not_mem_nil
  | true =>
    intro line hline
    rw [List.mem_singleton.mp hline]
    exact unmatched_nil

/-- Where a new field has a place in front of the last newline. -/
def Placed (base : Text) (fields : List Field) (ended : Bool) : Prop :=
  ended = true → newFields base fields ≠ [] → ∃ f ∈ plainFields fields, f.name = description

theorem names_nodup (hdistinct : (fields.map fun f => (f.name, f.base)).Nodup) (own : Option Text) :
    ((fields.filter (·.base = own)).map Field.name).Nodup := by
  have hsub : ((fields.filter (·.base = own)).map fun f => (f.name, f.base)).Nodup :=
    hdistinct.sublist (List.filter_sublist.map _)
  refine List.Nodup.of_map (fun name => (name, own)) ?_
  rw [List.map_map]
  have hsame : (fields.filter (·.base = own)).map ((fun name => (name, own)) ∘ Field.name) =
      (fields.filter (·.base = own)).map fun f => (f.name, f.base) := by
    refine List.map_congr_left fun f hf => ?_
    have hbase : f.base = own := of_decide_eq_true (List.mem_filter.mp hf).2
    simp [hbase]
  rwa [hsame]

/-- The lines that are written are those of the selected fields. -/
theorem applyBaseFields_render {ended : Bool} (hne : fields ≠ [])
    (hf : ∀ f ∈ fields, f.WellFormed) (hm : ∀ f ∈ fields, f.Matched)
    (hdistinct : (fields.map fun f => (f.name, f.base)).Nodup)
    (hplaced : Placed base fields ended) :
    applyBaseFields (render fields ended) base = render (selectFields base fields) ended := by
  have hlines : (render fields ended).splitOn '\n' =
      fields.flatMap Field.lines ++ lastLine ended := by
    refine List.splitOn_intercalate '\n' (fun line hline => ?_) ?_
    · rcases List.mem_append.mp hline with hline | hline
      · exact newline_not_mem_lines hf hm line hline
      · cases ended with
        | false => exact absurd hline List.not_mem_nil
        | true => rw [List.mem_singleton.mp hline]; exact List.not_mem_nil
    · obtain ⟨f, rest, rfl⟩ := List.exists_cons_of_ne_nil hne
      exact List.append_ne_nil_of_left_ne_nil (List.cons_ne_nil _ _) _
  have hplain : ∀ f ∈ plainFields fields, f.Plain := fun f => plain_of_mem hf
  have hvariants : ∀ g ∈ variantFields base fields, ∀ c ∈ g.name, isFieldChar c = true := by
    intro g hg
    obtain ⟨hmem, hbase⟩ := List.mem_filter.mp hg
    exact (hm g hmem).name_chars (by rw [of_decide_eq_true hbase]; exact Option.some_ne_none _)
  have htail := unmatched_lastLine ended
  have hoverrides : (fields.flatMap Field.lines ++ lastLine ended).foldl (collect base) [] =
      (variantFields base fields).map Field.item := by
    have hnames : ((variantFields base fields).map Field.name).Nodup :=
      names_nodup hdistinct (some base)
    rw [List.foldl_append, collect_fields hf hm (by rwa [List.map_nil, List.nil_append]),
      collect_unmatched htail, List.nil_append]
  have hkept : (fields.flatMap Field.lines ++ lastLine ended).filter (bracketed · = none) =
      (plainFields fields).flatMap Field.lines ++ lastLine ended := by
    rw [List.filter_append, kept_lines hf hm]
    exact congrArg _ (List.filter_eq_self.mpr fun line hline =>
      decide_eq_true (htail line hline).bracketed)
  have hunseen : ((variantFields base fields).map Field.item).filter (fun item =>
      ¬ ((plainFields fields).flatMap Field.lines ++ lastLine ended).any
        (headerName · = some item.1)) = (newFields base fields).map Field.item := by
    rw [List.filter_map, newFields]
    refine congrArg _ (List.filter_congr fun g hg => ?_)
    exact congrArg (fun any : Bool => decide (¬ any = true))
      (any_headerName hvariants hplain hg htail)
  have hreplaced : ((plainFields fields).flatMap Field.lines ++ lastLine ended).map
      (replaceLine ((variantFields base fields).map Field.item)) =
        ((plainFields fields).map (replaceField (variantFields base fields))).flatMap Field.lines ++
          lastLine ended := by
    rw [List.map_append, replaceLine_lines hvariants hplain]
    refine congrArg _ (List.map_congr_left (fun line hline => ?_) |>.trans (List.map_id _))
    rw [replaceLine, (htail line hline).headerName]
    rfl
  have hplace : lastLine ended = [] ∨ newFields base fields = [] ∨
      ((plainFields fields).map (replaceField (variantFields base fields))).any
        (·.name = description) = true := by
    cases ended with
    | false => exact .inl rfl
    | true =>
      refine .inr (or_iff_not_imp_left.mpr fun hnew => ?_)
      obtain ⟨f, hmem, hname⟩ := hplaced rfl hnew
      exact List.any_eq_true.mpr
        ⟨_, List.mem_map_of_mem hmem, decide_eq_true (name_replaceField.trans hname)⟩
  have hreplacedPlain : ∀ f ∈ (plainFields fields).map (replaceField (variantFields base fields)),
      f.Plain :=
    List.forall_mem_map.mpr fun f hmem => plain_replaceField (hplain f hmem)
  have hadded : ∀ g ∈ newFields base fields, g.asPlain.Plain := fun g hmem =>
    plain_asPlain (hf g (List.mem_of_mem_filter (List.mem_of_mem_filter hmem)))
  rw [applyBaseFields, hlines, hoverrides, hkept, hunseen, hreplaced,
    foldl_insertLine hreplacedPlain hadded htail hplace]
  rfl

end Selection

end BuildTools.ControlFields
