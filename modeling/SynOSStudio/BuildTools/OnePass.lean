import SynOSStudio.BuildTools.Branding

/-!
# Branding in one pass

The text of a brand as one pass over a template makes it, and when the two passes of the build
tools, each of which reads what the one before has put in, come to the same.
-/

namespace BuildTools

open TextLines TextPasses

section OnePass

/-- What a template holds: placeholders, and the product name as a whole word. -/
inductive Part
  | placeholder (key : SubstitutionKey)
  | product
  deriving DecidableEq

def keepLiteral : Text := "SynOS-Installer/".toList

def findPart (prev : Option Char) (text : Text) : Option (Part × ℕ) :=
  match SubstitutionKey.all.find? fun key => key.placeholder.isPrefixOf text with
  | some key => some (.placeholder key, key.placeholder.length)
  | none =>
    if productRule.hit prev text && !keepLiteral.isPrefixOf text then
      some (.product, PRODUCT_NAME.length)
    else none

def parts (template : Text) : List (Piece Part Char) := scan findPart template

/-- What the parts become when these placeholders are filled in. -/
def filled (subs : Substitutions) (done : List SubstitutionKey) : Part → Text → Text
  | .placeholder key, old => if key ∈ done then subs key else old
  | .product, old => old

def branded (subs : Substitutions) : Part → Text → Text
  | .placeholder key, _ => subs key
  | .product, _ => subs .brandName

/-- The template with every placeholder filled in at once. -/
def rendered (subs : Substitutions) (template : Text) : Text :=
  fill (filled subs SubstitutionKey.all) (parts template)

/-- Everything that is written in the template is replaced at once, and nothing else. -/
def onePass (subs : Substitutions) (template : Text) : Except String Text :=
  if leftover (rendered subs template) ≠ [] then
    .error (refusal (leftover (rendered subs template)))
  else .ok (fill (branded subs) (parts template))

end OnePass

section Conditions

variable (subs : Substitutions)

theorem SubstitutionKey.placeholder_pos (key : SubstitutionKey) : 0 < key.placeholder.length := by
  simp [placeholder]

def SubstitutionKey.rule (key : SubstitutionKey) : Rule Char :=
  literal key.placeholder key.placeholder_pos

/-- While the placeholders are filled in one after another, each is found only where the template
has it. -/
def FoundAsWritten (pieces : List (Piece Part Char)) :
    List SubstitutionKey → List SubstitutionKey → Prop
  | _, [] => True
  | done, key :: todo =>
    key.rule.places (fill (filled subs done) pieces) =
      places 0 (marked (filled subs done) (· = .placeholder key) pieces) ∧
    FoundAsWritten pieces (key :: done) todo

instance instDecidableFoundAsWritten (pieces : List (Piece Part Char)) : ∀ done todo : List SubstitutionKey,
    Decidable (FoundAsWritten subs pieces done todo)
  | _, [] => isTrue trivial
  | done, key :: todo =>
    have := instDecidableFoundAsWritten pieces (key :: done) todo
    inferInstanceAs (Decidable (_ ∧ _))

theorem PRODUCT_NAME_pos : 0 < PRODUCT_NAME.length := by decide

/-- The product name outside the literal that keeps it. A literal behind it is no part of the
word, since it is hidden when the word is looked for. -/
def nameRule : Rule Char where
  width := PRODUCT_NAME.length
  positive := PRODUCT_NAME_pos
  hit prev text := PRODUCT_NAME.isPrefixOf text && !keepLiteral.isPrefixOf text &&
    !wordNext prev && (keepLiteral.isPrefixOf (text.drop PRODUCT_NAME.length) ||
      !wordNext (text.drop PRODUCT_NAME.length).head?)
  fits prev text h := by
    simp only [Bool.and_eq_true] at h
    exact (List.isPrefixOf_iff_prefix.mp h.1.1.1).length_le

inductive Mark
  | keep
  | name
  deriving DecidableEq

def findMark (prev : Option Char) (text : Text) : Option (Mark × ℕ) :=
  if keepLiteral.isPrefixOf text then some (.keep, keepLiteral.length)
  else if nameRule.hit prev text then some (.name, PRODUCT_NAME.length)
  else none

def hidden (display : Text) : Mark → Text → Text
  | .keep, _ => sentinel 0
  | .name, _ => display

/-- The sentinel is found only where a literal is hidden. -/
def SentinelsApart (display text : Text) : Prop :=
  (literal (sentinel 0) (by decide)).places (fill (hidden display) (scan findMark text)) =
    places 0 (marked (hidden display) (· = .keep) (scan findMark text))

instance (display text : Text) : Decidable (SentinelsApart display text) :=
  inferInstanceAs (Decidable (_ = _))

/-- The product name is found only where the template has it as a whole word. -/
def NamesAsWritten (template : Text) : Prop :=
  nameRule.places (rendered subs template) =
    places 0 (marked (filled subs SubstitutionKey.all) (· = .product) (parts template))

instance (template : Text) : Decidable (NamesAsWritten subs template) :=
  inferInstanceAs (Decidable (_ = _))

/-- No pass finds anything but what the template has. -/
def Undisturbed (template : Text) : Prop :=
  FoundAsWritten subs (parts template) [] SubstitutionKey.all ∧
    (leftover (rendered subs template) ≠ [] ∨ subs .brandName = PRODUCT_NAME ∨
      (NamesAsWritten subs template ∧
        (keepLiteral <:+: rendered subs template →
          SentinelsApart (subs .brandName) (rendered subs template))))

instance (template : Text) : Decidable (Undisturbed subs template) :=
  inferInstanceAs (Decidable (_ ∧ _))

end Conditions

section Rendering

variable {subs : Substitutions} {template : Text}

theorem findPart_pos {prev : Option Char} {text : Text} {part : Part} {n : ℕ}
    (h : findPart prev text = some (part, n)) : 0 < n := by
  unfold findPart at h
  split at h
  · rename_i key hkey
    cases h
    exact key.placeholder_pos
  · split at h
    · cases h
      decide
    · cases h

theorem old_of_mem_parts {part : Part} {old : Text} (h : Piece.found part old ∈ parts template) :
    old = match part with
      | .placeholder key => key.placeholder
      | .product => PRODUCT_NAME := by
  obtain ⟨prev, rest, n, hfind, rfl⟩ := mem_scanFrom h
  have htake {pattern : Text} (hbegins : pattern.isPrefixOf rest = true) :
      rest.take pattern.length = pattern :=
    (List.prefix_iff_eq_take.mp (List.isPrefixOf_iff_prefix.mp hbegins)).symm
  unfold findPart at hfind
  split at hfind
  · rename_i key hkey
    cases hfind
    have hbegins := List.find?_some hkey
    exact htake hbegins
  · split at hfind
    · rename_i hit
      cases hfind
      simp only [productRule, Bool.and_eq_true] at hit
      exact htake hit.1.1.1
    · cases hfind

theorem fill_filled_nil : fill (filled subs []) (parts template) = template := by
  have hold : fill (filled subs []) (parts template) =
      fill (fun _ old => old) (parts template) := by
    refine fill_congr fun part old _ => ?_
    cases part <;> simp [filled]
  rw [hold, parts, scan, fill_old_scanFrom fun _ _ _ _ => findPart_pos, List.drop_zero]

theorem replaceAll_filled {key : SubstitutionKey} {done : List SubstitutionKey}
    (hdone : key ∉ done)
    (h : key.rule.places (fill (filled subs done) (parts template)) =
      places 0 (marked (filled subs done) (· = .placeholder key) (parts template))) :
    replaceAll key.placeholder (subs key) (fill (filled subs done) (parts template)) =
      fill (filled subs (key :: done)) (parts template) := by
  rw [replaceAll, dif_pos key.placeholder_pos]
  have hpass := @pass_fill _ _ key.rule (subs key) (parts template) (filled subs done)
    (· = .placeholder key) (fun part old hmem hpart => by
      obtain rfl : part = .placeholder key := by simpa using hpart
      rw [filled, if_neg hdone, old_of_mem_parts hmem]
      rfl) h
  rw [SubstitutionKey.rule] at hpass
  rw [hpass]
  refine fill_congr fun part old _ => ?_
  cases part with
  | product => simp [filled]
  | placeholder other =>
    by_cases hother : other = key
    · simp [filled, hother]
    · simp [filled, hother]

theorem foldl_replaceAll {todo done : List SubstitutionKey} (hnodup : (todo ++ done).Nodup)
    (h : FoundAsWritten subs (parts template) done todo) :
    todo.foldl (fun text key => replaceAll key.placeholder (subs key) text)
        (fill (filled subs done) (parts template)) =
      fill (filled subs (todo.reverse ++ done)) (parts template) := by
  induction todo generalizing done with
  | nil => rfl
  | cons key todo ih =>
    rw [List.cons_append, List.nodup_cons, List.mem_append, not_or] at hnodup
    have hnext : (todo ++ key :: done).Nodup :=
      List.nodup_middle.mpr (List.nodup_cons.mpr ⟨by simp [hnodup.1], hnodup.2⟩)
    rw [List.foldl_cons, replaceAll_filled hnodup.1.2 h.1, ih hnext h.2, List.reverse_cons,
      List.append_assoc, List.singleton_append]

/-- If each placeholder is found only where it is written, they are filled in as if at once. -/
theorem renderText_eq (h : FoundAsWritten subs (parts template) [] SubstitutionKey.all) :
    renderText subs template =
      if leftover (rendered subs template) ≠ [] then
        .error (refusal (leftover (rendered subs template)))
      else .ok (rendered subs template) := by
  have hfold := foldl_replaceAll (by decide) h
  have hall : fill (filled subs (SubstitutionKey.all.reverse ++ [])) (parts template) =
      rendered subs template := by
    refine fill_congr fun part old _ => ?_
    cases part <;> simp [filled]
  rw [fill_filled_nil, hall] at hfold
  rw [renderText, hfold]

end Rendering

section Names

variable {display new text rest : Text} {prev : Option Char} {c : Char}

/-- A text is read from the left as literals that are kept, names and other characters. -/
theorem brand_induction {motive : Option Char → Text → Prop} (nil : ∀ prev, motive prev [])
    (keep : ∀ prev rest, motive (some '/') rest → motive prev (keepLiteral ++ rest))
    (name : ∀ prev rest, nameRule.hit prev (PRODUCT_NAME ++ rest) = true →
      motive (some 'S') rest → motive prev (PRODUCT_NAME ++ rest))
    (plain : ∀ prev c rest, keepLiteral.isPrefixOf (c :: rest) = false →
      nameRule.hit prev (c :: rest) = false → motive (some c) rest → motive prev (c :: rest))
    (prev : Option Char) (text : Text) : motive prev text := by
  induction hlength : text.length using Nat.strong_induction_on generalizing prev text with
  | _ n ih =>
    subst hlength
    by_cases hkeep : keepLiteral.isPrefixOf text = true
    · obtain ⟨rest, rfl⟩ := List.isPrefixOf_iff_prefix.mp hkeep
      refine keep prev rest (ih rest.length ?_ (some '/') rest rfl)
      rw [List.length_append]
      exact Nat.lt_add_of_pos_left (by decide)
    · by_cases hit : nameRule.hit prev text = true
      · have hbegins := hit
        simp only [nameRule, Bool.and_eq_true] at hbegins
        obtain ⟨rest, rfl⟩ := List.isPrefixOf_iff_prefix.mp hbegins.1.1.1
        refine name prev rest hit (ih rest.length ?_ (some 'S') rest rfl)
        rw [List.length_append]
        exact Nat.lt_add_of_pos_left (by decide)
      · cases text with
        | nil => exact nil prev
        | cons c rest =>
          exact plain prev c rest (Bool.eq_false_of_not_eq_true hkeep)
            (Bool.eq_false_of_not_eq_true hit) (ih rest.length (by simp) (some c) rest rfl)

theorem scan_keep (prev : Option Char) (rest : Text) :
    scanFrom findMark prev 0 (keepLiteral ++ rest) =
      .found .keep keepLiteral :: scanFrom findMark (some '/') 0 rest := by
  refine scanFrom_found (by decide) ?_
  rw [findMark, if_pos (List.isPrefixOf_iff_prefix.mpr (List.prefix_append _ _))]

theorem not_keep_of_hit (h : nameRule.hit prev text = true) :
    keepLiteral.isPrefixOf text = false := by
  simp only [nameRule, Bool.and_eq_true, Bool.not_eq_true'] at h
  exact h.1.1.2

theorem scan_name (h : nameRule.hit prev (PRODUCT_NAME ++ rest) = true) :
    scanFrom findMark prev 0 (PRODUCT_NAME ++ rest) =
      .found .name PRODUCT_NAME :: scanFrom findMark (some 'S') 0 rest := by
  refine scanFrom_found (by decide) ?_
  rw [findMark, if_neg (by simp [not_keep_of_hit h]), if_pos h]

theorem scan_plain (hkeep : keepLiteral.isPrefixOf (c :: rest) = false)
    (hit : nameRule.hit prev (c :: rest) = false) :
    scanFrom findMark prev 0 (c :: rest) = .plain c :: scanFrom findMark (some c) 0 rest := by
  have hfind : findMark prev (c :: rest) = none := by simp [findMark, hkeep, hit]
  rw [scanFrom, hfind]

theorem productName_eq : PRODUCT_NAME = ['S', 'y', 'n', 'O', 'S'] := rfl

theorem not_prefix_of_head {pattern : Text} (h : c ≠ 'S') :
    ('S' :: pattern).isPrefixOf (c :: rest) = false := by
  rw [List.isPrefixOf, beq_eq_false_iff_ne.mpr h.symm, Bool.false_and]

theorem not_name_of_head (h : c ≠ 'S') : PRODUCT_NAME.isPrefixOf (c :: rest) = false :=
  not_prefix_of_head h

theorem not_keep_of_head (h : c ≠ 'S') : keepLiteral.isPrefixOf (c :: rest) = false :=
  not_prefix_of_head h

theorem nameRule_head (prev : Option Char) (h : c ≠ 'S') :
    nameRule.hit prev (c :: rest) = false := by
  simp only [nameRule, not_name_of_head h, Bool.false_and]

theorem productRule_head (prev : Option Char) (h : c ≠ 'S') :
    productRule.hit prev (c :: rest) = false := by
  simp only [productRule, not_name_of_head h, Bool.false_and]

theorem pass_over_keep (prev : Option Char) (rest : Text) :
    passFrom nameRule new prev 0 (keepLiteral ++ rest) =
      keepLiteral ++ passFrom nameRule new (some '/') 0 rest := by
  have hfirst : nameRule.hit prev (keepLiteral ++ rest) = false := by
    have hkeep : keepLiteral.isPrefixOf (keepLiteral ++ rest) = true :=
      List.isPrefixOf_iff_prefix.mpr (List.prefix_append _ _)
    simp only [nameRule, hkeep, Bool.not_true, Bool.and_false, Bool.false_and]
  have hsecond : nameRule.hit (some 'O') ('S' :: ("-Installer/".toList ++ rest)) = false := rfl
  have hplain (front : Text) (h : 'S' ∉ front) :
      ∀ c ∈ front, ∀ prev rest, nameRule.hit prev (c :: rest) = false :=
    fun c hc prev rest => nameRule_head prev (ne_of_mem_of_not_mem hc h)
  have hsplit (rest : Text) : keepLiteral ++ rest =
      'S' :: ("ynO".toList ++ 'S' :: ("-Installer/".toList ++ rest)) := rfl
  rw [hsplit] at hfirst
  rw [hsplit, hsplit]
  calc passFrom nameRule new prev 0
        ('S' :: ("ynO".toList ++ 'S' :: ("-Installer/".toList ++ rest)))
      = 'S' :: ("ynO".toList ++ passFrom nameRule new (some 'O') 0
          ('S' :: ("-Installer/".toList ++ rest))) := by
        rw [passFrom_miss hfirst, passFrom_quiet _ (hplain _ (by decide))]
        rfl
    _ = 'S' :: ("ynO".toList ++ 'S' :: ("-Installer/".toList ++
          passFrom nameRule new (some '/') 0 rest)) := by
        rw [passFrom_miss hsecond, passFrom_quiet _ (hplain _ (by decide))]
        rfl

/-- The pass that looks for the names finds those that are marked. -/
theorem pass_nameRule (prev : Option Char) (text : Text) :
    passFrom nameRule new prev 0 text =
      fill (fun mark old => if mark = .name then new else old) (scanFrom findMark prev 0 text) := by
  induction prev, text using brand_induction with
  | nil prev => simp [scanFrom]
  | keep prev rest ih => rw [pass_over_keep, scan_keep, fill_found, if_neg (by decide), ih]
  | name prev rest hit ih =>
    rw [scan_name hit, passFrom_append_hit rfl hit, fill_found, if_pos rfl, ← ih]
    rfl
  | plain prev c rest hkeep hit ih =>
    rw [scan_plain hkeep hit, passFrom_miss hit, fill_plain, ih]

end Names

section Sentinels

variable {display text rest : Text} {prev : Option Char} {c d : Char}

/-- The text with a sentinel for every literal that is kept. -/
def hide (text : Text) : Text :=
  passFrom (literal keepLiteral (by decide)) (sentinel 0) none 0 text

theorem hide_keep (rest : Text) : hide (keepLiteral ++ rest) = sentinel 0 ++ hide rest := by
  rw [hide, passFrom_append_hit rfl (List.isPrefixOf_iff_prefix.mpr (List.prefix_append _ _)),
    passFrom_literal_prev _ none]
  rfl

theorem hide_cons (h : keepLiteral.isPrefixOf (c :: rest) = false) :
    hide (c :: rest) = c :: hide rest := by
  rw [hide, passFrom_miss h, passFrom_literal_prev _ none]
  rfl

theorem hide_cases (text : Text) :
    (∃ rest, text = keepLiteral ++ rest ∧ hide text = sentinel 0 ++ hide rest) ∨
      (text = [] ∧ hide text = []) ∨
      ∃ c rest, text = c :: rest ∧ keepLiteral.isPrefixOf text = false ∧
        hide text = c :: hide rest := by
  by_cases hkeep : keepLiteral.isPrefixOf text = true
  · obtain ⟨rest, rfl⟩ := List.isPrefixOf_iff_prefix.mp hkeep
    exact Or.inl ⟨rest, rfl, hide_keep rest⟩
  · have hkeep := Bool.eq_false_of_not_eq_true hkeep
    cases text with
    | nil => exact Or.inr (Or.inl ⟨rfl, rfl⟩)
    | cons c rest => exact Or.inr (Or.inr ⟨c, rest, rfl, hkeep, hide_cons hkeep⟩)

/-- What a hidden text begins with, unless it is a sentinel, the text begins with. -/
theorem prefix_hide {pattern : Text} (h : c :: pattern <+: hide text) (hc : c ≠ '\x00') :
    ∃ rest, text = c :: rest ∧ keepLiteral.isPrefixOf text = false ∧
      pattern <+: hide rest := by
  rcases hide_cases text with ⟨rest, rfl, hhide⟩ | ⟨rfl, hhide⟩ | ⟨d, rest, rfl, hkeep, hhide⟩
  · rw [hhide] at h
    exact absurd (List.cons_prefix_cons.mp h).1 hc
  · rw [hhide] at h
    exact absurd h (by simp)
  · rw [hhide, List.cons_prefix_cons] at h
    obtain ⟨rfl, h⟩ := h
    exact ⟨rest, rfl, hkeep, h⟩

/-- Behind a name there is a literal, or what follows is no part of the word. -/
theorem wordNext_hide (rest : Text) :
    wordNext (hide rest).head? = true ↔
      keepLiteral.isPrefixOf rest = false ∧ wordNext rest.head? = true := by
  rcases hide_cases rest with ⟨left, rfl, hhide⟩ | ⟨rfl, hhide⟩ | ⟨d, left, rfl, hkeep, hhide⟩
  · rw [hhide, List.isPrefixOf_iff_prefix.mpr (List.prefix_append _ _)]
    simp [sentinel, wordNext, isWordChar]
  · rw [hhide]
    simp [wordNext]
  · rw [hhide, hkeep]
    simp

theorem wordNext_name_iff (rest : Text) :
    (!wordNext (hide rest).head?) =
      (keepLiteral.isPrefixOf rest || !wordNext rest.head?) := by
  rw [Bool.eq_iff_iff, Bool.not_eq_true', ← Bool.not_eq_true, wordNext_hide, Bool.or_eq_true,
    Bool.not_eq_true', not_and_or, Bool.not_eq_false, Bool.not_eq_true]

theorem nameRule_hit_iff (prev : Option Char) (rest : Text) :
    nameRule.hit prev (PRODUCT_NAME ++ rest) = true ↔
      keepLiteral.isPrefixOf (PRODUCT_NAME ++ rest) = false ∧ wordNext prev = false ∧
        wordNext (hide rest).head? = false := by
  have hbegins : PRODUCT_NAME.isPrefixOf (PRODUCT_NAME ++ rest) = true :=
    List.isPrefixOf_iff_prefix.mpr (List.prefix_append _ _)
  simp only [nameRule, hbegins, List.drop_left, ← wordNext_name_iff, Bool.true_and,
    Bool.and_eq_true, Bool.not_eq_true', and_assoc]

theorem productRule_hit_iff (prev : Option Char) (rest : Text) :
    productRule.hit prev (PRODUCT_NAME ++ rest) = true ↔
      wordNext prev = false ∧ wordNext rest.head? = false := by
  have hbegins : PRODUCT_NAME.isPrefixOf (PRODUCT_NAME ++ rest) = true :=
    List.isPrefixOf_iff_prefix.mpr (List.prefix_append _ _)
  simp only [productRule, hbegins, List.drop_left, Bool.true_and, Bool.and_eq_true,
    Bool.not_eq_true']

/-- The end of a name does not begin a literal: what follows would be part of the word. -/
theorem hide_name (h : nameRule.hit prev (PRODUCT_NAME ++ rest) = true) :
    hide (PRODUCT_NAME ++ rest) = PRODUCT_NAME ++ hide rest := by
  have hlast : keepLiteral.isPrefixOf ('S' :: rest) = false := by
    by_contra hkeep
    obtain ⟨left, hleft⟩ := List.isPrefixOf_iff_prefix.mp (Bool.eq_true_of_not_eq_false hkeep)
    obtain rfl : 'y' :: ("nOS-Installer/".toList ++ left) = rest := (List.cons.inj hleft).2
    have hnext := ((nameRule_hit_iff prev _).mp h).2.2
    rw [hide_cons (not_keep_of_head (by decide))] at hnext
    have hword : wordNext (some 'y') = true := by decide
    exact Bool.false_ne_true (hnext.symm.trans hword)
  have hfirst := not_keep_of_hit h
  simp only [productName_eq, List.cons_append, List.nil_append] at hfirst ⊢
  rw [hide_cons hfirst, hide_cons (not_keep_of_head (by decide)),
    hide_cons (not_keep_of_head (by decide)), hide_cons (not_keep_of_head (by decide)),
    hide_cons hlast]

theorem productRule_hide {prev' : Option Char} (hprev : wordNext prev' = wordNext prev)
    (hkeep : keepLiteral.isPrefixOf (c :: rest) = false)
    (hit : nameRule.hit prev (c :: rest) = false) :
    productRule.hit prev' (c :: hide rest) = false := by
  by_contra hne
  have hproduct := Bool.eq_true_of_not_eq_false hne
  have hname : ['S', 'y', 'n', 'O', 'S'] <+: c :: hide rest := by
    simp only [productRule, Bool.and_eq_true] at hproduct
    exact List.isPrefixOf_iff_prefix.mp hproduct.1.1
  obtain ⟨rfl, hfrom⟩ := List.cons_prefix_cons.mp hname
  obtain ⟨rest, rfl, hy, hfrom⟩ := prefix_hide hfrom (by decide)
  obtain ⟨rest, rfl, hn, hfrom⟩ := prefix_hide hfrom (by decide)
  obtain ⟨rest, rfl, hO, hfrom⟩ := prefix_hide hfrom (by decide)
  obtain ⟨rest, rfl, hS, -⟩ := prefix_hide hfrom (by decide)
  rw [hide_cons hy, hide_cons hn, hide_cons hO, hide_cons hS] at hproduct
  obtain ⟨hbefore, hbehind⟩ := (productRule_hit_iff prev' (hide rest)).mp hproduct
  have hfound := (nameRule_hit_iff prev rest).mpr ⟨hkeep, hprev ▸ hbefore, hbehind⟩
  exact Bool.false_ne_true (hit.symm.trans hfound)

/-- In the hidden text the names that are marked are found, and nothing else. -/
theorem pass_hide {prev' : Option Char} (hprev : wordNext prev' = wordNext prev) :
    passFrom productRule display prev' 0 (hide text) =
      fill (hidden display) (scanFrom findMark prev 0 text) := by
  induction prev, text using brand_induction generalizing prev' with
  | nil prev => simp [scanFrom, hide]
  | keep prev rest ih =>
    have hquiet : ∀ c ∈ sentinel 0, ∀ prev rest, productRule.hit prev (c :: rest) = false :=
      fun c hc prev rest => productRule_head prev (ne_of_mem_of_not_mem hc (by decide))
    have hlast : (sentinel 0).getLast?.or prev' = some '\x00' := rfl
    rw [hide_keep, passFrom_quiet _ hquiet, hlast, scan_keep, fill_found,
      @ih (some '\x00') rfl]
    rfl
  | name prev rest hit ih =>
    obtain ⟨-, hbefore, hbehind⟩ := (nameRule_hit_iff prev rest).mp hit
    have hproduct := (productRule_hit_iff prev' (hide rest)).mpr ⟨hprev.trans hbefore, hbehind⟩
    rw [hide_name hit, passFrom_append_hit rfl hproduct, scan_name hit, fill_found,
      ← @ih (some 'S') rfl]
    rfl
  | plain prev c rest hkeep hit ih =>
    rw [hide_cons hkeep, passFrom_miss (productRule_hide hprev hkeep hit), scan_plain hkeep hit,
      fill_plain, ih rfl]

end Sentinels

section Agreement

variable {subs : Substitutions} {template text : Text}

theorem old_of_mem_marks {mark : Mark} {old : Text}
    (h : Piece.found mark old ∈ scan findMark text) :
    old = match mark with
      | .keep => keepLiteral
      | .name => PRODUCT_NAME := by
  obtain ⟨prev, rest, n, hfind, rfl⟩ := mem_scanFrom h
  have htake {pattern : Text} (hbegins : pattern.isPrefixOf rest = true) :
      rest.take pattern.length = pattern :=
    (List.prefix_iff_eq_take.mp (List.isPrefixOf_iff_prefix.mp hbegins)).symm
  unfold findMark at hfind
  split at hfind
  · rename_i hkeep
    cases hfind
    exact htake hkeep
  · split at hfind
    · rename_i hit
      cases hfind
      simp only [nameRule, Bool.and_eq_true] at hit
      exact htake hit.1.1.1
    · cases hfind

theorem hideKept_brandKeepList (text : Text) :
    hideKept brandKeepList text =
      if keepLiteral <:+: text then (hide text, [(sentinel 0, keepLiteral)]) else (text, []) :=
  rfl

/-- Behind sentinels the names are replaced as if the literals were told apart at once. -/
theorem restored_eq {display : Text} (h : SentinelsApart display text) :
    replaceAll (sentinel 0) keepLiteral (pass productRule display (hide text)) =
      pass nameRule display text := by
  have hhide : pass productRule display (hide text) =
      fill (hidden display) (scan findMark text) := pass_hide rfl
  have hname : pass nameRule display text =
      fill (fun mark old => if mark = .name then display else old) (scan findMark text) :=
    pass_nameRule none text
  rw [hhide, hname, replaceAll, dif_pos (by decide)]
  have hpass := @pass_fill _ _ (literal (sentinel 0) (by decide)) keepLiteral
    (scan findMark text) (hidden display) (· = .keep) (fun mark old _ hmark => by
      obtain rfl : mark = .keep := by simpa using hmark
      rfl) h
  rw [hpass]
  refine fill_congr fun mark old hmem => ?_
  rw [old_of_mem_marks hmem]
  cases mark <;> rfl

theorem pass_productRule_eq {display : Text} (h : ¬ keepLiteral <:+: text) :
    pass productRule display text = pass nameRule display text := by
  refine passFrom_congr rfl fun prev suffix hsuffix => ?_
  have hfree (back : Text) (hback : back <:+ suffix) : keepLiteral.isPrefixOf back = false := by
    by_contra hkeep
    have hbegins := List.isPrefixOf_iff_prefix.mp (Bool.eq_true_of_not_eq_false hkeep)
    exact h (hbegins.isInfix.trans (hback.trans hsuffix).isInfix)
  simp only [productRule, nameRule, hfree suffix List.suffix_rfl,
    hfree _ (List.drop_suffix _ _), Bool.not_false, Bool.and_true, Bool.false_or]

theorem brandText_eq (hdisplay : subs .brandName ≠ PRODUCT_NAME) (hname : PRODUCT_NAME <:+: text)
    (hsentinels : keepLiteral <:+: text → SentinelsApart (subs .brandName) text) :
    brandText subs false text = pass nameRule (subs .brandName) text := by
  have hneither : ¬ (subs .brandName = PRODUCT_NAME ∨ ¬ PRODUCT_NAME <:+: text) :=
    not_or.mpr ⟨hdisplay, not_not.mpr hname⟩
  simp only [brandText, if_neg hneither, hideKept_brandKeepList, Bool.false_eq_true, if_false]
  by_cases hkeep : keepLiteral <:+: text
  · rw [if_pos hkeep]
    exact restored_eq (hsentinels hkeep)
  · rw [if_neg hkeep]
    exact pass_productRule_eq hkeep

theorem product_occurs {old : Text} (h : Piece.found .product old ∈ parts template) :
    PRODUCT_NAME <:+: rendered subs template := by
  obtain ⟨before, after, heq⟩ := List.append_of_mem h
  refine ⟨fill (filled subs SubstitutionKey.all) before,
    fill (filled subs SubstitutionKey.all) after, ?_⟩
  have hold : old = PRODUCT_NAME := old_of_mem_parts h
  rw [rendered, heq, hold]
  simp [fill, Piece.fill, filled]

theorem filled_all (subs : Substitutions) (key : SubstitutionKey) (old : Text) :
    filled subs SubstitutionKey.all (.placeholder key) old =
      branded subs (.placeholder key) old :=
  if_pos (by cases key <;> decide)

/-- A template with its placeholders filled in lacks the names alone. -/
theorem fill_branded (subs : Substitutions) (pieces : List (Piece Part Char)) :
    fill (fun part old => if decide (part = .product) then subs .brandName
      else filled subs SubstitutionKey.all part old) pieces = fill (branded subs) pieces := by
  refine fill_congr fun part old _ => ?_
  cases part with
  | placeholder key => simpa using filled_all subs key old
  | product => rfl

theorem brandText_rendered (h : subs .brandName = PRODUCT_NAME ∨
      (NamesAsWritten subs template ∧
        (keepLiteral <:+: rendered subs template →
          SentinelsApart (subs .brandName) (rendered subs template)))) :
    brandText subs false (rendered subs template) = fill (branded subs) (parts template) := by
  by_cases hdisplay : subs .brandName = PRODUCT_NAME
  · rw [brandText, if_pos (Or.inl hdisplay)]
    refine fill_congr fun part old hmem => ?_
    cases part with
    | placeholder key => exact filled_all subs key old
    | product => exact (old_of_mem_parts hmem).trans hdisplay.symm
  · obtain ⟨hnames, hsentinels⟩ := h.resolve_left hdisplay
    by_cases hname : PRODUCT_NAME <:+: rendered subs template
    · rw [brandText_eq hdisplay hname hsentinels, rendered,
        pass_fill (fun part old hmem hpart => by
          obtain rfl : part = .product := by simpa using hpart
          exact congrArg List.length (old_of_mem_parts hmem)) hnames, fill_branded]
    · rw [brandText, if_pos (Or.inr hname)]
      refine fill_congr fun part old hmem => ?_
      cases part with
      | placeholder key => exact filled_all subs key old
      | product => exact absurd (product_occurs hmem) hname

/-- The two passes come to the same as one pass if none of them finds anything but what the
template has. -/
theorem branding_is_one_pass (subs : Substitutions) (template : Text)
    (h : Undisturbed subs template) : brandedText subs template = onePass subs template := by
  rw [brandedText, renderText_eq h.1, onePass]
  by_cases hleft : leftover (rendered subs template) ≠ []
  · rw [if_pos hleft, if_pos hleft]
    rfl
  · rw [if_neg hleft, if_neg hleft, ← brandText_rendered (h.2.resolve_left hleft)]
    rfl

/-- The other way round, up to disturbances that cancel out: if the passes come to the same, the
name is found as often as the template has it. -/
theorem as_many_names_as_written
    (hfound : FoundAsWritten subs (parts template) [] SubstitutionKey.all)
    (hleft : leftover (rendered subs template) = []) (hdisplay : subs .brandName ≠ PRODUCT_NAME)
    (hname : PRODUCT_NAME <:+: rendered subs template)
    (hsentinels : keepLiteral <:+: rendered subs template →
      SentinelsApart (subs .brandName) (rendered subs template))
    (hlength : (subs .brandName).length ≠ PRODUCT_NAME.length)
    (h : brandedText subs template = onePass subs template) :
    (nameRule.places (rendered subs template)).length =
      (places 0 (marked (filled subs SubstitutionKey.all) (· = .product)
        (parts template))).length := by
  rw [brandedText, renderText_eq hfound, onePass, if_neg (not_not.mpr hleft),
    if_neg (not_not.mpr hleft)] at h
  have hsame : brandText subs false (rendered subs template) =
      fill (branded subs) (parts template) := Except.ok.inj h
  rw [brandText_eq hdisplay hname hsentinels] at hsame
  refine length_places_eq (fun part old hmem hpart => ?_) hlength (hsame.trans ?_)
  · obtain rfl : part = .product := by simpa using hpart
    exact congrArg List.length (old_of_mem_parts hmem)
  · exact (fill_branded subs (parts template)).symm

end Agreement

section Example

/-- The substitutions of a brand with this name. -/
def namedBrand (name : String) : Substitutions
  | .repoHost => "packages.synos.example".toList
  | .mirror => "https://deb.debian.org/debian".toList
  | .version => "26.7".toList
  | .base => "debian".toList
  | .suite => "trixie".toList
  | .arch => "amd64".toList
  | .repoUrl => "https://packages.synos.example/".toList
  | .repoEnabled => "no".toList
  | .brandId => "acme".toList
  | .brandName => name.toList
  | .brandVendor => name.toList
  | .brandUrlHome => []
  | .brandUrlSupport => []

/-- A name that holds the product name is rewritten where it was filled in. -/
theorem product_in_a_name_is_rewritten :
    checkDisplayName "SynOS NGINX".toList = .ok () ∧
      brandedText (namedBrand "SynOS NGINX") "Welcome to ${BRAND_NAME}".toList =
        .ok "Welcome to SynOS NGINX NGINX".toList ∧
      onePass (namedBrand "SynOS NGINX") "Welcome to ${BRAND_NAME}".toList =
        .ok "Welcome to SynOS NGINX".toList ∧
      brandedText (namedBrand "SynOS NGINX") "Welcome to ${BRAND_NAME}".toList ≠
        onePass (namedBrand "SynOS NGINX") "Welcome to ${BRAND_NAME}".toList :=
  ⟨by decide +kernel, by decide +kernel, by decide +kernel, by decide +kernel⟩

/-- A template of a brand with another name, with everything that is replaced or kept. -/
theorem other_name_is_one_pass :
    brandedText (namedBrand "Acme Linux")
        "${BRAND_NAME} ${VERSION}: SynOS, SynOS-Installer/2 and SynOSBtrfs".toList =
      onePass (namedBrand "Acme Linux")
        "${BRAND_NAME} ${VERSION}: SynOS, SynOS-Installer/2 and SynOSBtrfs".toList := by
  exact branding_is_one_pass _ _ (by decide +kernel)

/-- A name that is brought in and rewritten can make up for a name that is written and missed. -/
example :
    let subs : Substitutions := fun key =>
      if key = .brandVendor then "SynOS".toList else namedBrand "SynOS SynOS" key
    brandedText subs "${BRAND_VENDOR} SynOS${VERSION}".toList =
        onePass subs "${BRAND_VENDOR} SynOS${VERSION}".toList ∧
      ¬ Undisturbed subs "${BRAND_VENDOR} SynOS${VERSION}".toList := by
  decide +kernel

end Example

end BuildTools
