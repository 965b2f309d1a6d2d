import Mathlib.Data.List.AList
import Mathlib.Data.List.Lex
import Mathlib.Data.List.Sort
import Mathlib.Data.String.Basic
import Mathlib.Data.Set.Finite.Range
import Mathlib.Tactic
import SynOSStudio.KeyedLists.StableOrder

/-!
# What the recipe fingerprint covers

The byte stream that `recipe_fingerprint` feeds to SHA-256, over recipe trees of any
shape. A tree is a finite map from relative paths to regular files and links; where a
link leads is asked of the file system.
-/

namespace BuildTools

inductive TreeEntry where
  | file (content : List UInt8) (executable : Bool)
  | link (target : String)
  deriving DecidableEq

abbrev RelativePath := List String

abbrev Tree := AList (fun _ : RelativePath => TreeEntry)

/-- What is at the end of a link. -/
inductive LinkEnd where
  | nothing
  | directory
  | file (content : List UInt8)

/-- How the file system follows the link at a path of a tree. -/
structure Links where
  leadsTo : Tree → RelativePath → LinkEnd
  /-- On its way a link only meets finitely many names. -/
  unmet : ∀ tree, ∃ met : Finset String, ∀ name ∉ met, ∀ path,
    leadsTo (tree.insert [name] (.file [] false)) path = leadsTo tree path
  /-- The mode of a file does not matter to a link. -/
  modeless : ∀ tree path content executable, tree.lookup path = some (.file content executable) →
    leadsTo (tree.insert path (.file content !executable)) = leadsTo tree

/-- No link leads anywhere. -/
def Links.dangling : Links where
  leadsTo _ _ := .nothing
  unmet _ := ⟨∅, fun _ _ _ => rfl⟩
  modeless _ _ _ _ _ := rfl

def UPSTREAM_OUTPUTS : List String := ["deploy", "obj", "target", "locale"]

def SCRATCH_DIRS : List String := ["__pycache__", ".git", "node_modules"]

def isRecipeOutput (rel : RelativePath) : Bool :=
  if rel.any (SCRATCH_DIRS.contains ·) then
    true
  else
    match rel with
    | first :: second :: _ => first == "upstream" && UPSTREAM_OUTPUTS.contains second
    | _ => false

def encode (s : String) : List UInt8 :=
  s.toUTF8.toList

/-- `str` of a relative path. -/
def pathText (rel : RelativePath) : String :=
  "/".intercalate rel

/-- The other inputs of a fingerprint. -/
structure BuilderInputs where
  subs : List UInt8
  builder : List UInt8
  publicKey : Option (List UInt8)

section Source

variable (links : Links)

/-- What the loop over the recipe feeds for one path. -/
def recipePiece (source : Tree) (rel : RelativePath) : List UInt8 :=
  match source.lookup rel with
  | none => []
  | some (.file content _) =>
    if isRecipeOutput rel then [] else encode (pathText rel) ++ content
  | some (.link target) =>
    match isRecipeOutput rel, links.leadsTo source rel with
    | true, _ => []
    | false, .directory => []
    | false, _ => encode (pathText rel) ++ encode target

/-- What the loop over `_lib` feeds for one path. -/
def libPiece (lib : Tree) (shared : RelativePath) : List UInt8 :=
  match lib.lookup shared with
  | none => []
  | some (.file content _) => content
  | some (.link _) =>
    match links.leadsTo lib shared with
    | .file content => content
    | _ => []

def sortedPaths (tree : Tree) : List RelativePath :=
  tree.keys.insertionSort (· ≤ ·)

/-- Everything `recipe_fingerprint` hashes, in order. -/
def fingerprintStream (i : BuilderInputs) (source lib : Tree) : List UInt8 :=
  i.subs ++ i.builder ++ (sortedPaths source).flatMap (recipePiece links source) ++
    (sortedPaths lib).flatMap (libPiece links lib) ++ i.publicKey.getD []

end Source

/-- A name that a directory entry can have. -/
def ValidName (name : String) : Prop :=
  name ≠ "" ∧ name ≠ "." ∧ name ≠ ".." ∧ '/' ∉ name.toList

instance (name : String) : Decidable (ValidName name) :=
  inferInstanceAs (Decidable (_ ∧ _))

/-- The paths of a tree are paths, and no file has entries below it. -/
structure Tree.WellFormed (tree : Tree) : Prop where
  nonempty : ∀ path ∈ tree, path ≠ []
  names : ∀ path ∈ tree, ∀ name ∈ path, ValidName name
  apart : ∀ path ∈ tree, ∀ path' ∈ tree, path <+: path' → path = path'

/-- The same entries at the same paths. -/
def SameTree (tree tree' : Tree) : Prop :=
  ∀ path, tree.lookup path = tree'.lookup path

/-- The same recipe, apart from what a prebuild produces. -/
def SameInputs (source source' : Tree) : Prop :=
  ∀ path, isRecipeOutput path = false → source.lookup path = source'.lookup path

section FreshNames

def spareName (n : ℕ) : String :=
  String.ofList (List.replicate (n + 1) 'x')

theorem spareName_injective : Function.Injective spareName := by
  intro m n h
  have hlength := congrArg (List.length ∘ String.toList) h
  simpa [spareName] using hlength

theorem validName_spareName (n : ℕ) : ValidName (spareName n) := by
  have hfirst : (spareName n).toList = List.replicate (n + 1) 'x' := String.toList_ofList
  refine ⟨?_, ?_, ?_, ?_⟩
  · intro h
    have := congrArg String.toList h
    simp [hfirst] at this
  · intro h
    have := congrArg String.toList h
    rw [hfirst, List.replicate_succ] at this
    revert this
    simp
  · intro h
    have := congrArg String.toList h
    rw [hfirst, List.replicate_succ] at this
    revert this
    simp
  · rw [hfirst]
    simp

/-- Outside any finite set there is a name for one more entry. -/
theorem exists_validName_notMem (used : Finset String) : ∃ name, ValidName name ∧ name ∉ used := by
  obtain ⟨name, ⟨n, rfl⟩, hname⟩ :=
    (Set.infinite_range_of_injective spareName_injective).exists_notMem_finset used
  exact ⟨spareName n, validName_spareName n, hname⟩

end FreshNames

section Sorting

theorem flatMap_orderedInsert {α β : Type} [LinearOrder α] (f : α → List β) {a : α} (h : f a = [])
    (l : List α) : (l.orderedInsert (· ≤ ·) a).flatMap f = l.flatMap f := by
  induction l with
  | nil => simp [h]
  | cons b l ih =>
    by_cases hab : a ≤ b
    · rw [List.orderedInsert_cons_of_le _ _ hab, List.flatMap_cons, h, List.nil_append]
    · rw [List.orderedInsert_of_not_le _ _ hab, List.flatMap_cons, List.flatMap_cons, ih]

variable {α β : Type} [DecidableEq α] {s : AList fun _ : α => β} {a : α}

theorem keys_insert_of_notMem (h : a ∉ s) (b : β) : (s.insert a b).keys = a :: s.keys := by
  rw [AList.keys_insert, List.erase_of_not_mem h]

theorem keys_insert_perm (h : a ∈ s) (b : β) : (s.insert a b).keys.Perm s.keys := by
  rw [AList.keys_insert]
  exact (List.perm_cons_erase h).symm

end Sorting

section Collisions

variable {links : Links} {source lib : Tree} {path : RelativePath} {content : List UInt8}
  {executable : Bool}

theorem Tree.WellFormed.insert_fresh (h : lib.WellFormed) {name : String} (hname : ValidName name)
    (hfresh : ∀ path ∈ lib, path.head? ≠ some name) (entry : TreeEntry) :
    Tree.WellFormed (lib.insert [name] entry) where
  nonempty path hpath := by
    rcases (AList.mem_insert _).mp hpath with rfl | hmem
    · exact List.cons_ne_nil _ _
    · exact h.nonempty path hmem
  names path hpath := by
    rcases (AList.mem_insert _).mp hpath with rfl | hmem
    · intro n hn
      rw [List.mem_singleton.mp hn]
      exact hname
    · exact h.names path hmem
  apart path hpath path' hpath' hbelow := by
    rcases (AList.mem_insert _).mp hpath with rfl | hmem
    · rcases (AList.mem_insert _).mp hpath' with rfl | hmem'
      · rfl
      · obtain ⟨rest, rfl⟩ := hbelow
        exact absurd rfl (hfresh _ hmem')
    · rcases (AList.mem_insert _).mp hpath' with rfl | hmem'
      · rcases List.prefix_cons_iff.mp hbelow with rfl | ⟨rest, rfl, -⟩
        · exact absurd rfl (h.nonempty _ hmem)
        · exact absurd rfl (hfresh _ hmem)
      · exact h.apart path hmem path' hmem' hbelow

theorem Tree.WellFormed.insert_mem (h : source.WellFormed) (hpath : path ∈ source)
    (entry : TreeEntry) : Tree.WellFormed (source.insert path entry) := by
  have hmem : ∀ p, p ∈ source.insert path entry ↔ p ∈ source := by
    intro p
    rw [AList.mem_insert]
    constructor
    · rintro (rfl | hp)
      · exact hpath
      · exact hp
    · exact Or.inr
  refine ⟨fun p hp => h.nonempty p ((hmem p).mp hp), fun p hp => h.names p ((hmem p).mp hp), ?_⟩
  intro p hp p' hp' hbelow
  exact h.apart p ((hmem p).mp hp) p' ((hmem p').mp hp') hbelow

/-- An empty file of a new name in `_lib` adds nothing to the stream. -/
theorem stream_insert_empty (i : BuilderInputs) {name : String} (hfresh : [name] ∉ lib)
    (hlinks : ∀ path, links.leadsTo (lib.insert [name] (.file [] false)) path =
      links.leadsTo lib path) :
    fingerprintStream links i source (lib.insert [name] (.file [] false)) =
      fingerprintStream links i source lib := by
  have hnew : libPiece links (lib.insert [name] (.file [] false)) [name] = [] := by
    unfold libPiece
    rw [AList.lookup_insert]
  have hpieces : ∀ path ∈ sortedPaths lib,
      libPiece links (lib.insert [name] (.file [] false)) path = libPiece links lib path := by
    intro path hpath
    have hmem : path ∈ lib := (List.mem_insertionSort _).mp hpath
    have hne : path ≠ [name] := fun heq => hfresh (heq ▸ hmem)
    unfold libPiece
    rw [AList.lookup_insert_ne hne, hlinks]
  have hpaths : sortedPaths (lib.insert [name] (.file [] false)) =
      (sortedPaths lib).orderedInsert (· ≤ ·) [name] := by
    unfold sortedPaths
    rw [keys_insert_of_notMem hfresh, List.insertionSort_cons]
  unfold fingerprintStream
  rw [hpaths, flatMap_orderedInsert _ hnew, List.flatMap_congr hpieces]

/-- The executable bit of a recipe file adds nothing to the stream. -/
theorem stream_flip_executable (i : BuilderInputs)
    (h : source.lookup path = some (.file content executable)) :
    fingerprintStream links i (source.insert path (.file content !executable)) lib =
      fingerprintStream links i source lib := by
  have hmem : path ∈ source := AList.lookup_isSome.mp (by rw [h]; rfl)
  have hpaths : sortedPaths (source.insert path (.file content !executable)) =
      sortedPaths source :=
    KeyedLists.insertionSort_eq_of_perm (keys_insert_perm hmem _)
  have hpieces : ∀ rel, recipePiece links (source.insert path (.file content !executable)) rel =
      recipePiece links source rel := by
    intro rel
    unfold recipePiece
    rw [links.modeless source path content executable h]
    by_cases hrel : rel = path
    · rw [hrel, AList.lookup_insert, h]
    · rw [AList.lookup_insert_ne hrel]
  unfold fingerprintStream
  rw [hpaths, funext hpieces]

/-- For every recipe and every `_lib` there is another `_lib`, and for every recipe file
another recipe, with the same stream. -/
theorem stream_never_identifies (links : Links) (i : BuilderInputs) (source lib : Tree)
    (hsource : source.WellFormed) (hlib : lib.WellFormed) :
    (∃ lib', lib'.WellFormed ∧ ¬ SameTree lib' lib ∧
      fingerprintStream links i source lib' = fingerprintStream links i source lib) ∧
    ∀ path content executable, isRecipeOutput path = false →
      source.lookup path = some (.file content executable) →
      ∃ source', source'.WellFormed ∧ ¬ SameInputs source' source ∧
        fingerprintStream links i source' lib = fingerprintStream links i source lib := by
  constructor
  · obtain ⟨met, hmet⟩ := links.unmet lib
    obtain ⟨name, hname, hunused⟩ :=
      exists_validName_notMem (met ∪ (lib.keys.filterMap List.head?).toFinset)
    rw [Finset.mem_union, not_or] at hunused
    have hhead : ∀ path ∈ lib, path.head? ≠ some name := by
      intro path hpath heq
      apply hunused.2
      rw [List.mem_toFinset, List.mem_filterMap]
      exact ⟨path, hpath, heq⟩
    have hfresh : [name] ∉ lib := fun hmem => hhead _ hmem rfl
    refine ⟨lib.insert [name] (.file [] false), hlib.insert_fresh hname hhead _, fun hsame => ?_,
      stream_insert_empty i hfresh (hmet name hunused.1)⟩
    have hlookup := hsame [name]
    rw [AList.lookup_insert, AList.lookup_eq_none.mpr hfresh] at hlookup
    cases hlookup
  · intro path content executable houtput h
    have hmem : path ∈ source := AList.lookup_isSome.mp (by rw [h]; rfl)
    refine ⟨source.insert path (.file content !executable), hsource.insert_mem hmem _,
      fun hsame => ?_, stream_flip_executable i h⟩
    have hlookup := hsame path houtput
    rw [AList.lookup_insert, h] at hlookup
    cases executable <;> cases hlookup

theorem wellFormed_empty : Tree.WellFormed ∅ :=
  ⟨fun _ h => absurd h (AList.notMem_empty _), fun _ h => absurd h (AList.notMem_empty _),
    fun _ h => absurd h (AList.notMem_empty _)⟩

/-- A recipe with a control file. -/
def controlRecipe : Tree :=
  (∅ : Tree).insert ["control"] (.file (encode "Package: demo") false)

theorem wellFormed_controlRecipe : controlRecipe.WellFormed :=
  wellFormed_empty.insert_fresh (by decide +kernel)
    (fun _ h => absurd h (AList.notMem_empty _)) _

theorem control_stream_never_identifies :
    (∃ lib', lib'.WellFormed ∧ ¬ SameTree lib' ∅ ∧
      fingerprintStream .dangling ⟨encode "\x7b\x7d", [], none⟩ controlRecipe lib' =
        fingerprintStream .dangling ⟨encode "\x7b\x7d", [], none⟩ controlRecipe ∅) ∧
    ∃ source', source'.WellFormed ∧ ¬ SameInputs source' controlRecipe ∧
      fingerprintStream .dangling ⟨encode "\x7b\x7d", [], none⟩ source' ∅ =
        fingerprintStream .dangling ⟨encode "\x7b\x7d", [], none⟩ controlRecipe ∅ := by
  obtain ⟨hlib, hsource⟩ := stream_never_identifies .dangling ⟨encode "\x7b\x7d", [], none⟩
    controlRecipe ∅ wellFormed_controlRecipe wellFormed_empty
  exact ⟨hlib, hsource ["control"] (encode "Package: demo") false (by decide)
    (AList.lookup_insert _)⟩

/-- A byte may move from the end of a file's name to the start of its content. -/
theorem stream_confuses_name_and_content :
    ¬ ∀ (links : Links) (i : BuilderInputs) (source source' lib lib' : Tree), source.WellFormed →
      source'.WellFormed → lib.WellFormed → lib'.WellFormed →
      fingerprintStream links i source lib = fingerprintStream links i source' lib' →
      SameInputs source source' ∧ SameTree lib lib' := by
  intro h
  have hhead : ∀ name ≠ "control", ∀ path ∈ controlRecipe, path.head? ≠ some name := by
    intro name hname path hpath
    rcases (AList.mem_insert _).mp hpath with rfl | hmem
    · simpa using hname.symm
    · exact absurd hmem (AList.notMem_empty _)
  have hsame := (h .dangling ⟨encode "\x7b\x7d", [], none⟩
    (controlRecipe.insert ["rules"] (.file (encode "1") false))
    (controlRecipe.insert ["rule"] (.file (encode "s1") false)) ∅ ∅
    (wellFormed_controlRecipe.insert_fresh (by decide +kernel) (hhead _ (by decide)) _)
    (wellFormed_controlRecipe.insert_fresh (by decide +kernel) (hhead _ (by decide)) _)
    wellFormed_empty wellFormed_empty (by decide +kernel)).1 ["rules"] (by decide)
  revert hsame
  decide +kernel

end Collisions

end BuildTools
