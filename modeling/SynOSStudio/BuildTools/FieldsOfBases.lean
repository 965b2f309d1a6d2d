import SynOSStudio.BuildTools.FinishedParagraphs

/-!
# Fields of a base

The fields that a package built for a base has: of each name the variant of the base where there
is one, and the plain field otherwise. They are what is read of the finished file.
-/

namespace BuildTools.ControlFields

open TextLines TextPasses

def chosen (base : Text) (fields : List Field) (name : Text) : Option Field :=
  ((variantFields base fields).find? (·.name = name)).or
    ((plainFields fields).find? (·.name = name))

/-- A field without a value. -/
def Field.isEmpty (f : Field) : Bool := f.isBlank && f.continuation.isEmpty

/-- The value of a field, whatever its name is. -/
def Field.read (f : Field) : Entry :=
  ⟨f.name, strip f.first, f.continuation.map rstrip⟩

/-- A description is the last field. -/
def DescriptionLast (fields : List Field) : Prop :=
  ∀ f ∈ fields, f.name = description → fields.getLast? = some f

/-- The entries are the chosen fields that have a value, each once. -/
structure Delivers (read : Field → Entry) (base : Text) (fields : List Field)
    (entries : List Entry) : Prop where
  nodup : (entries.map Entry.name).Nodup
  mem_iff : ∀ e, e ∈ entries ↔
    ∃ f, chosen base fields e.name = some f ∧ f.isEmpty = false ∧ read f = e
  description_last : DescriptionLast (plainFields fields) →
    ∀ e ∈ entries, e.name = description → entries.getLast? = some e

/-- Where each line that is dropped or replaced is a whole field that the patterns know. -/
structure Spared (base : Text) (fields : List Field) (ended : Bool) : Prop where
  matched : ∀ f ∈ fields, f.Matched
  replaced : ∀ f ∈ plainFields fields, ∀ g ∈ variantFields base fields, g.name = f.name →
    f.continuation = []
  unbroken : ∀ f name, chosen base fields name = some f →
    ∀ line ∈ f.first :: f.continuation, ∀ c ∈ line, isLineBreak c = false
  emptied : ∀ f name, chosen base fields name = some f → f.isBlank = true →
    f.continuation = [] ∧ isEmptyName f.name = true
  placed : Placed base fields ended

section Sources

variable {fields : List Field} {f g : Field} {base name : Text}

theorem mem_plainFields : f ∈ plainFields fields ↔ f ∈ fields ∧ f.base = none := by
  simp [plainFields]

theorem mem_variantFields : f ∈ variantFields base fields ↔ f ∈ fields ∧ f.base = some base := by
  simp [variantFields]

theorem find?_of_mem (hnodup : (fields.map Field.name).Nodup) (h : f ∈ fields) :
    fields.find? (·.name = f.name) = some f := by
  have hsome : (fields.find? (·.name = f.name)).isSome := by
    rw [List.find?_isSome]
    exact ⟨f, h, decide_eq_true rfl⟩
  obtain ⟨g, hg⟩ := Option.isSome_iff_exists.mp hsome
  obtain ⟨hmem, hname⟩ := mem_of_find? hg
  rw [hg, List.inj_on_of_nodup_map hnodup hmem h hname]

/-- The chosen fields in the order in which the lines of a paragraph are gone through. -/
def sources (base : Text) (fields : List Field) : List Field :=
  (plainFields fields).map (fun f =>
    ((variantFields base fields).find? (·.name = f.name)).getD f) ++ newFields base fields

theorem mem_newFields : g ∈ newFields base fields ↔
    g ∈ variantFields base fields ∧ ∀ f ∈ plainFields fields, f.name ≠ g.name := by
  simp [newFields]

theorem mem_of_chosen (h : chosen base fields name = some f) :
    f ∈ fields ∧ (f.base = none ∨ f.base = some base) := by
  rcases Option.or_eq_some_iff.mp h with h | ⟨-, h⟩
  · obtain ⟨hmem, hbase⟩ := mem_variantFields.mp (mem_of_find? h).1
    exact ⟨hmem, .inr hbase⟩
  · obtain ⟨hmem, hbase⟩ := mem_plainFields.mp (mem_of_find? h).1
    exact ⟨hmem, .inl hbase⟩

theorem mem_sources (hdistinct : (fields.map fun f => (f.name, f.base)).Nodup) :
    f ∈ sources base fields ↔ chosen base fields f.name = some f := by
  have hplain : ((plainFields fields).map Field.name).Nodup := names_nodup hdistinct none
  have hvariants : ((variantFields base fields).map Field.name).Nodup :=
    names_nodup hdistinct (some base)
  rw [sources, List.mem_append, List.mem_map, mem_newFields]
  constructor
  · rintro (⟨source, hsource, rfl⟩ | ⟨hmem, -⟩)
    · cases hfind : (variantFields base fields).find? (·.name = source.name) with
      | none =>
        rw [Option.getD_none, chosen, hfind, Option.none_or]
        exact find?_of_mem hplain hsource
      | some g =>
        rw [Option.getD_some, chosen, find?_of_mem hvariants (mem_of_find? hfind).1, Option.some_or]
    · rw [chosen, find?_of_mem hvariants hmem, Option.some_or]
  · intro h
    rcases Option.or_eq_some_iff.mp h with hfind | ⟨hnone, hfind⟩
    · by_cases hnew : ∀ source ∈ plainFields fields, source.name ≠ f.name
      · exact .inr ⟨(mem_of_find? hfind).1, hnew⟩
      · push Not at hnew
        obtain ⟨source, hsource, hname⟩ := hnew
        exact .inl ⟨source, hsource, by rw [hname, hfind, Option.getD_some]⟩
    · exact .inl ⟨f, (mem_of_find? hfind).1, by rw [hnone, Option.getD_none]⟩

theorem sources_names : (sources base fields).map Field.name =
    (plainFields fields).map Field.name ++ (newFields base fields).map Field.name := by
  rw [sources, List.map_append, List.map_map]
  refine congrArg (· ++ _) (List.map_congr_left fun f _ => ?_)
  rw [Function.comp_apply]
  cases hfind : (variantFields base fields).find? (·.name = f.name) with
  | none => rfl
  | some g => exact (mem_of_find? hfind).2

theorem sources_nodup (hdistinct : (fields.map fun f => (f.name, f.base)).Nodup) :
    ((sources base fields).map Field.name).Nodup := by
  rw [sources_names, List.nodup_append]
  refine ⟨names_nodup hdistinct none, ?_, ?_⟩
  · exact (names_nodup hdistinct (some base)).sublist (List.filter_sublist.map _)
  · intro name hplain other hnew
    obtain ⟨f, hf, rfl⟩ := List.mem_map.mp hplain
    obtain ⟨g, hg, rfl⟩ := List.mem_map.mp hnew
    exact (mem_newFields.mp hg).2 f hf

end Sources

/-! ## Fields that are written -/

/-- A chosen field as it is written. -/
def Field.written (f : Field) : Field :=
  match f.base with
  | none => f
  | some _ => f.asPlain

section Writing

variable {fields added : List Field} {f g : Field} {base : Text} {ended : Bool}

@[simp] theorem written_name (f : Field) : f.written.name = f.name := by
  unfold Field.written
  split <;> rfl

theorem written_of_plain (h : f.base = none) : f.written = f := by rw [Field.written, h]

theorem written_of_variant (h : f.base = some base) : f.written = f.asPlain := by
  rw [Field.written, h]

theorem insertField_perm (fields : List Field) (g : Field) :
    (insertField fields g).Perm (fields ++ [g]) := by
  have hmiddle : (insertField fields g).Perm
      (g :: (fields.takeWhile (·.name ≠ description) ++ fields.dropWhile (·.name ≠ description))) :=
    List.perm_middle
  rw [List.takeWhile_append_dropWhile] at hmiddle
  exact hmiddle.trans (List.perm_append_singleton g fields).symm

theorem foldl_insertField_perm : (added.foldl insertField fields).Perm (fields ++ added) := by
  induction added generalizing fields with
  | nil => rw [List.foldl_nil, List.append_nil]
  | cons g added ih =>
    have hstep := (insertField_perm fields g).append_right added
    rw [List.append_assoc, List.singleton_append] at hstep
    exact ih.trans hstep

/-- What is left of a paragraph are its chosen fields. -/
theorem selectFields_perm (h : Spared base fields ended) :
    (selectFields base fields).Perm ((sources base fields).map Field.written) := by
  have hnew : (newFields base fields).map Field.asPlain =
      (newFields base fields).map Field.written :=
    List.map_congr_left fun g hg =>
      (written_of_variant (mem_variantFields.mp (mem_newFields.mp hg).1).2).symm
  have hreplaced : (plainFields fields).map (replaceField (variantFields base fields)) =
      (plainFields fields).map fun f =>
        (((variantFields base fields).find? (·.name = f.name)).getD f).written := by
    refine List.map_congr_left fun f hf => ?_
    rw [replaceField]
    cases hfind : (variantFields base fields).find? (·.name = f.name) with
    | none => exact (written_of_plain (mem_plainFields.mp hf).2).symm
    | some g =>
      obtain ⟨hmem, hname⟩ := mem_of_find? hfind
      rw [Option.getD_some, written_of_variant (mem_variantFields.mp hmem).2]
      simp only [h.replaced f hf g hmem hname]
      rfl
  rw [selectFields, hreplaced, hnew, sources, List.map_append, List.map_map]
  exact foldl_insertField_perm

theorem strip_filled_asPlain (owner : Text) (f : Field) :
    strip (f.asPlain.filled owner) = strip (f.filled owner) := by
  have hname : f.asPlain.name = f.name := rfl
  have hfirst : f.asPlain.first = ' ' :: f.first.dropWhile isSpace := rfl
  rw [Field.filled, Field.filled, hname, hfirst]
  by_cases hmaintainer : f.name = maintainer
  · rw [if_pos hmaintainer, if_pos hmaintainer, fillAddresses_cons (by decide), strip_space rfl,
      strip, dropWhile_fillAddresses, strip]
  · rw [if_neg hmaintainer, if_neg hmaintainer, strip_space rfl, strip,
      List.dropWhile_idempotent, strip]

theorem isBlank_asPlain (f : Field) : f.asPlain.isBlank = f.isBlank := by
  have hfirst : f.asPlain.isBlank = (f.first.dropWhile isSpace).all isSpace := rfl
  rw [hfirst, Field.isBlank]
  induction f.first with
  | nil => rfl
  | cons c text ih =>
    cases hc : isSpace c with
    | true => rw [List.dropWhile_cons_of_pos hc, ih, List.all_cons, hc, Bool.true_and]
    | false => rw [List.dropWhile_cons_of_neg (by simp [hc])]

theorem entry_written (owner : Text) (h : f.base ≠ none → f.continuation = []) :
    f.written.entry owner = f.entry owner := by
  unfold Field.written
  split
  · rfl
  · next own hbase =>
    rw [Field.entry, Field.entry, strip_filled_asPlain, h (by simp [hbase])]
    rfl

theorem isBlank_written (f : Field) : f.written.isBlank = f.isBlank := by
  unfold Field.written
  split
  · rfl
  · exact isBlank_asPlain f

theorem finishable_written (hf : f.WellFormed)
    (hunbroken : ∀ line ∈ f.first :: f.continuation, ∀ c ∈ line, isLineBreak c = false)
    (hemptied : f.isBlank = true → f.continuation = [] ∧ isEmptyName f.name = true) :
    f.written.Finishable := by
  cases hbase : f.base with
  | none =>
    rw [written_of_plain hbase]
    exact ⟨hbase, hf, hunbroken, hemptied⟩
  | some own =>
    rw [written_of_variant hbase]
    have hfirst : ∀ c ∈ f.asPlain.first, c = ' ' ∨ c ∈ f.first := fun c hc =>
      (List.mem_cons.mp hc).imp_right fun hc => (List.dropWhile_subset _) hc
    refine ⟨rfl, ⟨hf.name_ne, hf.name_chars, fun _ h => absurd h List.not_mem_nil, ?_⟩, ?_, ?_⟩
    · refine List.forall_mem_singleton.mpr fun hmem => ?_
      rcases hfirst _ hmem with hc | hc
      · exact absurd hc (by decide)
      · exact hf.newline _ List.mem_cons_self hc
    · refine List.forall_mem_singleton.mpr fun c hc => ?_
      rcases hfirst c hc with rfl | hc
      · rfl
      · exact hunbroken _ List.mem_cons_self c hc
    · intro hblank
      rw [isBlank_asPlain] at hblank
      exact ⟨rfl, (hemptied hblank).2⟩

/-! ## The description -/

/-- New fields are put in front of a description, and at the end where there is none. -/
theorem insertField_last (h : (∀ f ∈ fields, f.name ≠ description) ∨
    ∃ d, fields.getLast? = some d ∧ d.name = description) (g : Field) :
    (∀ f ∈ insertField fields g, f.name ≠ description) ∨
      ∃ d, (insertField fields g).getLast? = some d ∧ d.name = description := by
  rcases h with hnone | ⟨d, hlast, hname⟩
  · have hall : ∀ f ∈ fields, decide (f.name ≠ description) = true := fun f hf =>
      decide_eq_true (hnone f hf)
    have hend : insertField fields g = fields ++ [g] := by
      rw [insertField, List.takeWhile_eq_self_iff.mpr hall, List.dropWhile_eq_nil_iff.mpr hall]
    rw [hend]
    by_cases hg : g.name = description
    · exact .inr ⟨g, List.getLast?_concat, hg⟩
    · exact .inl (List.forall_mem_append.mpr ⟨hnone, List.forall_mem_singleton.mpr hg⟩)
  · refine .inr ⟨d, ?_, hname⟩
    have hne : fields.dropWhile (·.name ≠ description) ≠ [] := by
      intro hnil
      have hd := List.dropWhile_eq_nil_iff.mp hnil d (List.mem_of_getLast? hlast)
      exact of_decide_eq_true hd hname
    have hrest : (fields.dropWhile (·.name ≠ description)).getLast? = some d := by
      rw [← hlast, ← List.getLast?_append_of_ne_nil (fields.takeWhile (·.name ≠ description)) hne,
        List.takeWhile_append_dropWhile]
    obtain ⟨next, rest, heq⟩ := List.exists_cons_of_ne_nil hne
    rw [insertField, List.getLast?_append_of_ne_nil _ (List.cons_ne_nil _ _)]
    rw [heq] at hrest ⊢
    rw [List.getLast?_cons_cons, hrest]

theorem selectFields_last (base : Text) (h : DescriptionLast (plainFields fields)) :
    (∀ f ∈ selectFields base fields, f.name ≠ description) ∨
      ∃ d, (selectFields base fields).getLast? = some d ∧ d.name = description := by
  have hfold : ∀ added : List Field, ∀ start : List Field,
      ((∀ f ∈ start, f.name ≠ description) ∨
        ∃ d, start.getLast? = some d ∧ d.name = description) →
      (∀ f ∈ added.foldl insertField start, f.name ≠ description) ∨
        ∃ d, (added.foldl insertField start).getLast? = some d ∧ d.name = description := by
    intro added
    induction added with
    | nil => exact fun _ h => h
    | cons g added ih => exact fun start h => ih _ (insertField_last h g)
  refine hfold _ _ ?_
  by_cases hnone : ∀ f ∈ plainFields fields, f.name ≠ description
  · refine .inl (List.forall_mem_map.mpr fun f hf => ?_)
    rw [name_replaceField]
    exact hnone f hf
  · push Not at hnone
    obtain ⟨f, hf, hname⟩ := hnone
    refine .inr ⟨replaceField (variantFields base fields) f, ?_, name_replaceField.trans hname⟩
    rw [List.getLast?_map, h f hf hname, Option.map_some]

end Writing

/-! ## What is delivered -/

section Delivery

variable {p : Paragraph} {base owner : Text} {ended : Bool} (h : Spared base p.fields ended)
include h

theorem continuation_of_source {f : Field} (hf : f ∈ sources base p.fields) :
    f.base ≠ none → f.continuation = [] :=
  (h.matched f (mem_of_chosen ((mem_sources p.distinct).mp hf)).1).single

theorem finishable_selectFields : ∀ f ∈ selectFields base p.fields, f.Finishable := by
  intro f hf
  obtain ⟨source, hsource, rfl⟩ := List.mem_map.mp ((selectFields_perm h).mem_iff.mp hf)
  have hchosen := (mem_sources p.distinct).mp hsource
  exact finishable_written (p.wellFormed source (mem_of_chosen hchosen).1)
    (h.unbroken source _ hchosen) (h.emptied source _ hchosen)

theorem selectFields_nodup : ((selectFields base p.fields).map Field.name).Nodup := by
  have hsame : Field.name ∘ Field.written = Field.name := funext written_name
  rw [((selectFields_perm h).map Field.name).nodup_iff, List.map_map, hsame]
  exact sources_nodup p.distinct

/-- The fields that are not blank are the chosen fields that have a value. -/
theorem mem_selected (e : Entry) :
    (∃ f ∈ (selectFields base p.fields).filter (¬ ·.isBlank), f.entry owner = e) ↔
      ∃ f, chosen base p.fields e.name = some f ∧ f.isEmpty = false ∧ f.entry owner = e := by
  constructor
  · rintro ⟨f, hf, rfl⟩
    obtain ⟨hmem, hvisible⟩ := List.mem_filter.mp hf
    obtain ⟨source, hsource, rfl⟩ := List.mem_map.mp ((selectFields_perm h).mem_iff.mp hmem)
    have hblank : source.isBlank = false := by
      rw [← isBlank_written]
      simpa using hvisible
    have hname : (source.written.entry owner).name = source.name := written_name source
    refine ⟨source, ?_, ?_, (entry_written _ (continuation_of_source h hsource)).symm⟩
    · rw [hname]
      exact (mem_sources p.distinct).mp hsource
    · rw [Field.isEmpty, hblank, Bool.false_and]
  · rintro ⟨f, hf, hvisible, rfl⟩
    have hsource : f ∈ sources base p.fields := (mem_sources p.distinct).mpr hf
    have hblank : f.isBlank = false := by
      by_contra hblank
      rw [Bool.not_eq_false] at hblank
      rw [Field.isEmpty, hblank, (h.emptied f _ hf hblank).1] at hvisible
      exact absurd hvisible (by decide)
    refine ⟨f.written, List.mem_filter.mpr ⟨?_, ?_⟩,
      entry_written _ (continuation_of_source h hsource)⟩
    · exact (selectFields_perm h).mem_iff.mpr (List.mem_map_of_mem hsource)
    · rw [isBlank_written, hblank]
      rfl

theorem description_selected (hlast : DescriptionLast (plainFields p.fields)) {f : Field}
    (hf : f ∈ (selectFields base p.fields).filter (¬ ·.isBlank)) (hname : f.name = description) :
    ((selectFields base p.fields).filter (¬ ·.isBlank)).getLast? = some f := by
  obtain ⟨hmem, hvisible⟩ := List.mem_filter.mp hf
  rcases selectFields_last base hlast with hnone | ⟨d, hd, hdname⟩
  · exact absurd hname (hnone f hmem)
  · have heq : f = d := List.inj_on_of_nodup_map (selectFields_nodup h) hmem
      (List.mem_of_getLast? hd) (hname.trans hdname.symm)
    obtain ⟨front, hfront⟩ := List.getLast?_eq_some_iff.mp hd
    have hkept : [f].filter (¬ ·.isBlank) = [f] :=
      List.filter_eq_self.mpr (List.forall_mem_singleton.mpr hvisible)
    rw [hfront, ← heq, List.filter_append, hkept]
    exact List.getLast?_concat

end Delivery

/-- Each chosen field is delivered with its own lines, and the empty address of a maintainer is
filled. -/
theorem finished_delivers (p : Paragraph) (base : Text) (ended : Bool) (brandId : Option Text)
    (howner : '\n' ∉ ownerOf brandId) (h : Spared base p.fields ended) :
    ∃ entries,
      parse (finishControl (applyBaseFields (render p.fields ended) base) brandId) = some entries ∧
        Delivers (Field.entry (ownerOf brandId)) base p.fields entries := by
  have hread : parse (finishControl (applyBaseFields (render p.fields ended) base) brandId) =
      some (((selectFields base p.fields).filter (¬ ·.isBlank)).map
        (Field.entry (ownerOf brandId))) := by
    rw [applyBaseFields_render p.nonempty p.wellFormed h.matched p.distinct h.placed,
      parse_finishControl (finishable_selectFields h) howner]
  refine ⟨_, hread, ?_, ?_, ?_⟩
  · rw [List.map_map]
    exact (selectFields_nodup h).sublist (List.filter_sublist.map _)
  · intro e
    rw [List.mem_map]
    exact mem_selected h e
  · intro hlast e he hname
    obtain ⟨f, hf, rfl⟩ := List.mem_map.mp he
    rw [List.getLast?_map, description_selected h hlast hf hname, Option.map_some]

-- A variant that is folded is no whole line: its second line stays with the field before it.
example : parse (applyBaseFields "Package: x\nDepends[ubuntu]: a,\n b\nDescription: y".toList
    "debian".toList) = some [⟨"Package".toList, "x".toList, [" b".toList]⟩,
      ⟨description, "y".toList, []⟩] := by decide

/-- A paragraph with a variant for one base and a maintainer without an address. -/
def recipe : Paragraph where
  fields :=
    [⟨"Package".toList, none, " x".toList, []⟩,
      ⟨maintainer, none, " Acme <>".toList, []⟩,
      ⟨"Depends".toList, none, " a".toList, []⟩,
      ⟨"Depends".toList, some "debian".toList, " b".toList, []⟩,
      ⟨"Homepage".toList, none, " ".toList, []⟩,
      ⟨description, none, " y".toList, [" more".toList]⟩]
  nonempty := List.cons_ne_nil _ _
  wellFormed := by
    refine fun f hf => ⟨?_, ?_, ?_, ?_⟩ <;> revert f <;> decide
  distinct := by decide

theorem spared_recipe : Spared "debian".toList recipe.fields true where
  matched := by
    refine fun f hf => ⟨?_, ?_, ?_, ?_⟩ <;> revert f <;> decide
  replaced := by decide
  unbroken := by
    have hall : ∀ f ∈ recipe.fields, ∀ line ∈ f.first :: f.continuation, ∀ c ∈ line,
        isLineBreak c = false := by decide
    exact fun f name h => hall f (mem_of_chosen h).1
  emptied := by
    have hall : ∀ f ∈ recipe.fields, f.isBlank = true →
        f.continuation = [] ∧ isEmptyName f.name = true := by decide
    exact fun f name h => hall f (mem_of_chosen h).1
  placed := fun _ _ => ⟨_, mem_plainFields.mpr ⟨List.getLast_mem recipe.nonempty, rfl⟩, rfl⟩

theorem recipe_delivered : ∃ entries,
    parse (finishControl (applyBaseFields (render recipe.fields true) "debian".toList) none) =
        some entries ∧
      Delivers (Field.entry (ownerOf none)) "debian".toList recipe.fields entries :=
  finished_delivers recipe _ true none (by decide) spared_recipe

/-- The maintainer of the file is not the one of the paragraph. -/
theorem recipe_maintainer_filled : ¬ ∃ entries,
    parse (finishControl (applyBaseFields (render recipe.fields true) "debian".toList) none) =
        some entries ∧
      Delivers Field.read "debian".toList recipe.fields entries := by
  rintro ⟨entries, hparse, hdelivers⟩
  have hmem : ⟨maintainer, "Acme <>".toList, []⟩ ∈ entries :=
    (hdelivers.mem_iff _).mpr ⟨⟨maintainer, none, " Acme <>".toList, []⟩,
      by decide, by decide, by decide⟩
  have hentries : parse (finishControl
      (applyBaseFields (render recipe.fields true) "debian".toList) none) =
        some [⟨"Package".toList, "x".toList, []⟩,
          ⟨maintainer, "Acme <synos@localhost>".toList, []⟩,
          ⟨"Depends".toList, "b".toList, []⟩,
          ⟨description, "y".toList, [" more".toList]⟩] := by decide
  rw [Option.some_inj.mp (hparse.symm.trans hentries)] at hmem
  exact absurd hmem (by decide)

end BuildTools.ControlFields
