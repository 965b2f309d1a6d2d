import SynOSStudio.LinkedTrees.Walks

/-!
# Freeing what an entry created

The guarded removal of a file or a directory below a root, over trees with symbolic links. What
is asked for is removed whole, or nothing is.
-/

namespace BuildTools.EntryCleanup

open LinkedTrees

/-- Links that the kernel follows in one path. -/
def MAXSYMLINKS : ℕ := 40

/-- The file system, and where relative paths start. -/
structure Tree where
  nodes : Nodes
  cwd : Location
  wellFormed : WellFormed nodes
  cwd_dir : nodes cwd = some .dir

/-! ## Paths -/

section Paths

variable (nodes : Nodes) (cwd : Location) (path : Path)

def str : String :=
  if path.absolute then "/" ++ "/".intercalate path.parts
  else if path.parts = [] then "."
  else "/".intercalate path.parts

def lookup : Option Location :=
  walk nodes MAXSYMLINKS (path.start cwd) path.parts

/-- `Path.exists`, which follows links. -/
def pathExists : Bool :=
  (lookup nodes cwd path).isSome

def named : Option Location :=
  entry nodes MAXSYMLINKS (path.start cwd) path.parts

def isSymlink : Bool :=
  match named nodes cwd path with
  | none => false
  | some location =>
    match nodes location with
    | some (.link _) => true
    | _ => false

def isDir : Bool :=
  match lookup nodes cwd path with
  | none => false
  | some location => nodes location = some .dir

/-- `Path.resolve`, which takes what does not exist as it is. -/
def resolve : Location :=
  realpath nodes MAXSYMLINKS (path.start cwd) path.parts

/-- `Path.parents` -/
def parents (location : Location) : List Location :=
  location.inits.filter (· ≠ location)

def Path.join (part : String) : Path :=
  { path with parts := path.parts ++ [part] }

def relativeTo (target root : Path) : Option (List String) :=
  if target.absolute = root.absolute ∧ root.parts <+: target.parts then
    some (target.parts.drop root.parts.length)
  else
    none

/-- The first link on the way down. -/
def firstLink : Path → List String → Option Path
  | _, [] => none
  | current, part :: rest =>
    let next := Path.join current part
    if isSymlink nodes cwd next then some next else firstLink next rest

end Paths

/-! ## System calls -/

inductive Errno
  | EBUSY
  | EINVAL
  | EISDIR
  | ENOENT
  | ENOTDIR
  | ENOTEMPTY
  deriving DecidableEq

section Calls

variable (nodes : Nodes) (cwd : Location) (path : Path)

/-- `rmdir` of a directory that is empty. -/
def rmdir : Except Errno Nodes :=
  match path.parts.getLast? with
  | none => .error (if path.absolute then .EBUSY else .EINVAL)
  | some name =>
    match lookup nodes cwd { path with parts := path.parts.dropLast } with
    | none => .error .ENOENT
    | some parent =>
      if name = "." then .error .EINVAL
      else if name = ".." then .error .ENOTEMPTY
      else if nodes (parent ++ [name]) = some .dir then .ok (without nodes (parent ++ [name]))
      else .error .ENOTDIR

def unlink : Except Errno Nodes :=
  match path.parts.getLast? with
  | none => .error .EISDIR
  | some name =>
    match lookup nodes cwd { path with parts := path.parts.dropLast } with
    | none => .error .ENOENT
    | some parent =>
      if name = "." ∨ name = ".." then .error .EISDIR
      else
        match nodes (parent ++ [name]) with
        | none => .error .ENOENT
        | some .dir => .error .EISDIR
        | some _ => .ok (Function.update nodes (parent ++ [name]) none)

end Calls

/-! ## The removal -/

/-- How a removal ends; an error of the system is not caught. -/
inductive Ended
  | nothing
  | refused (message : String)
  | removed
  | raised (error : Errno)
  deriving DecidableEq

section Removal

variable (nodes : Nodes) (cwd : Location) (root target : Path)

local instance lawfulBEq_path : LawfulBEq (List String) := inferInstance

/-- `shutil.rmtree` empties the directory before it removes it by its path. -/
def rmtree : Ended × Nodes :=
  match lookup nodes cwd target with
  | none => (.raised .ENOENT, nodes)
  | some top =>
    match rmdir (emptied nodes top) cwd target with
    | .ok left => (.removed, left)
    | .error error => (.raised error, emptied nodes top)

/-- Why nothing is removed. -/
def refusal : Option String :=
  if isSymlink nodes cwd root then
    some ("refusing to remove anything under " ++ str root ++ ": it is itself a symlink")
  else
    match relativeTo target root with
    | none => some ("refusing to remove " ++ str target ++ ": it is not inside " ++ str root)
    | some rel =>
      match firstLink nodes cwd root rel with
      | some current => some ("refusing to remove " ++ str target ++ ": " ++ str current ++
          " is a symlink (would follow it out of " ++ str root ++ ")")
      | none =>
        if resolve nodes cwd target ≠ resolve nodes cwd root ∧
            resolve nodes cwd root ∉ parents (resolve nodes cwd target) then
          some ("refusing to remove " ++ str target ++ ": resolves to " ++
            str ⟨true, resolve nodes cwd target⟩ ++ ", outside " ++ str root)
        else
          none

def safeRemove : Ended × Nodes :=
  if !pathExists nodes cwd target && !isSymlink nodes cwd target then
    (.nothing, nodes)
  else
    match refusal nodes cwd root target with
    | some message => (.refused message, nodes)
    | none =>
      if isDir nodes cwd target && !isSymlink nodes cwd target then
        rmtree nodes cwd target
      else
        match unlink nodes cwd target with
        | .ok left => (.removed, left)
        | .error error => (.raised error, nodes)

end Removal

/-! ## What a removal may do -/

/-- The target goes with all that is below it, and it is the root or below it; no part of the way
from the root is a link. -/
structure RemovesExactly (tree : Tree) (root target : Path) (left : Nodes) (top : Location) :
    Prop where
  named : named tree.nodes tree.cwd target = some top
  left : left = without tree.nodes top
  inside : ∃ rootTop, lookup tree.nodes tree.cwd root = some rootTop ∧ rootTop <+: top
  plain : ∃ rel, target = { root with parts := root.parts ++ rel } ∧ ∀ front, front <+: rel →
    isSymlink tree.nodes tree.cwd { root with parts := root.parts ++ front } = false

def Safe (tree : Tree) (root target : Path) : Ended × Nodes → Prop
  | (.nothing, left) => left = tree.nodes ∧ named tree.nodes tree.cwd target = none
  | (.refused _, left) => left = tree.nodes
  | (.removed, left) => ∃ top, RemovesExactly tree root target left top
  | (.raised _, _) => False

/-- The path ends in a name, and reaches it without entering what is below the target. -/
def NamedFromOutside (tree : Tree) (target : Path) : Prop :=
  ∃ front name, target.parts = front ++ [name] ∧ name ≠ "." ∧ name ≠ ".." ∧
    ∀ top, lookup tree.nodes tree.cwd target = some top →
      ∀ other ∈ visited tree.nodes MAXSYMLINKS (target.start tree.cwd) front, ¬ Below top other

section Removals

variable {tree : Tree} {root target path : Path} {top : Location} {rel : List String}

theorem Tree.start_dir (tree : Tree) (path : Path) :
    tree.nodes (path.start tree.cwd) = some .dir :=
  tree.wellFormed.start tree.cwd_dir path

theorem not_link_of_named (h : isSymlink tree.nodes tree.cwd path = false)
    (hnamed : named tree.nodes tree.cwd path = some top) (link : Path) :
    tree.nodes top ≠ some (.link link) := by
  intro hlink
  simp [isSymlink, hnamed, hlink] at h

/-- What is found by a path that is no link is what the path names. -/
theorem named_of_lookup (h : isSymlink tree.nodes tree.cwd path = false)
    (hlookup : lookup tree.nodes tree.cwd path = some top) :
    named tree.nodes tree.cwd path = some top := by
  obtain ⟨other, hnamed, rfl | ⟨link, hlink⟩⟩ :=
    entry_of_walk tree.wellFormed (tree.start_dir path) hlookup
  · exact hnamed
  · exact absurd hlink (not_link_of_named h hnamed link)

theorem named_eq_none (h : pathExists tree.nodes tree.cwd target = false)
    (h' : isSymlink tree.nodes tree.cwd target = false) :
    named tree.nodes tree.cwd target = none := by
  cases hnamed : named tree.nodes tree.cwd target with
  | none => rfl
  | some top =>
    have hlookup := walk_of_entry tree.wellFormed hnamed (not_link_of_named h' hnamed)
    rw [pathExists, lookup, hlookup] at h
    cases h

theorem firstLink_eq_none (h : firstLink tree.nodes tree.cwd root rel = none)
    (hroot : isSymlink tree.nodes tree.cwd root = false) {front : List String}
    (hfront : front <+: rel) :
    isSymlink tree.nodes tree.cwd { root with parts := root.parts ++ front } = false := by
  induction rel generalizing root front with
  | nil =>
    rw [List.prefix_nil.mp hfront, List.append_nil]
    exact hroot
  | cons part rel ih =>
    rw [firstLink] at h
    split_ifs at h with hlink
    cases front with
    | nil =>
      rw [List.append_nil]
      exact hroot
    | cons part' front =>
      obtain ⟨rfl, hrest⟩ := List.cons_prefix_cons.mp hfront
      have hnext := ih h (Bool.eq_false_of_not_eq_true hlink) hrest
      rwa [Path.join, List.append_assoc, List.singleton_append] at hnext

theorem relativeTo_eq (h : relativeTo target root = some rel) :
    target = { root with parts := root.parts ++ rel } := by
  unfold relativeTo at h
  split_ifs at h with hrelative
  obtain ⟨habsolute, rest, hparts⟩ := hrelative
  rw [← hparts, List.drop_left, Option.some.injEq] at h
  obtain ⟨absolute, parts⟩ := target
  rw [← h, hparts, ← habsolute]

/-- What stands when nothing speaks against the removal. -/
theorem guarded (h : refusal tree.nodes tree.cwd root target = none) :
    (resolve tree.nodes tree.cwd target = resolve tree.nodes tree.cwd root ∨
      resolve tree.nodes tree.cwd root ∈ parents (resolve tree.nodes tree.cwd target)) ∧
    ∃ rel, target = { root with parts := root.parts ++ rel } ∧ ∀ front, front <+: rel →
      isSymlink tree.nodes tree.cwd { root with parts := root.parts ++ front } = false := by
  rw [refusal] at h
  by_cases hroot : isSymlink tree.nodes tree.cwd root
  · simp [hroot] at h
  have hroot := Bool.eq_false_of_not_eq_true hroot
  cases hrelative : relativeTo target root with
  | none => simp [hroot, hrelative] at h
  | some rel =>
    cases hfirst : firstLink tree.nodes tree.cwd root rel with
    | some current => simp [hroot, hrelative, hfirst] at h
    | none =>
      simp only [hroot, hrelative, hfirst, Bool.false_eq_true, if_false, ite_eq_right_iff,
        reduceCtorEq, imp_false, not_and_or, not_not] at h
      exact ⟨h, rel, relativeTo_eq hrelative, fun front => firstLink_eq_none hfirst hroot⟩

theorem not_link_of_guarded (h : refusal tree.nodes tree.cwd root target = none) :
    isSymlink tree.nodes tree.cwd target = false := by
  obtain ⟨-, rel, htarget, hplain⟩ := guarded h
  rw [htarget]
  exact hplain rel List.prefix_rfl

theorem removes_exactly (h : refusal tree.nodes tree.cwd root target = none)
    (hlookup : lookup tree.nodes tree.cwd target = some top) :
    RemovesExactly tree root target (without tree.nodes top) top := by
  obtain ⟨hinside, rel, htarget, hplain⟩ := guarded h
  have hroot : ∃ rootTop, lookup tree.nodes tree.cwd root = some rootTop := by
    rw [htarget] at hlookup
    by_cases hrel : rel = []
    · rw [hrel, List.append_nil] at hlookup
      exact ⟨top, hlookup⟩
    · obtain ⟨middle, hmiddle, -⟩ := walk_front tree.wellFormed (tree.start_dir root) hrel hlookup
      exact ⟨middle, hmiddle⟩
  obtain ⟨rootTop, hrootTop⟩ := hroot
  have hresolved : resolve tree.nodes tree.cwd target = top := realpath_eq hlookup
  have hresolvedRoot : resolve tree.nodes tree.cwd root = rootTop := realpath_eq hrootTop
  rw [hresolved, hresolvedRoot] at hinside
  refine ⟨named_of_lookup (not_link_of_guarded h) hlookup, rfl, ⟨rootTop, hrootTop, ?_⟩, rel,
    htarget, hplain⟩
  rcases hinside with rfl | hinside
  · exact List.prefix_rfl
  · exact (List.mem_inits _ _).mp (List.mem_filter.mp hinside).1

/-- A named target stands in the directory that the rest of its path leads to. -/
theorem exists_parent {front : List String} {name : String} (hparts : target.parts = front ++ [name])
    (hdot : name ≠ ".") (hdots : name ≠ "..")
    (hnamed : named tree.nodes tree.cwd target = some top) :
    ∃ parent, walk tree.nodes MAXSYMLINKS (target.start tree.cwd) front = some parent ∧
      tree.nodes (parent ++ [name]) ≠ none ∧ top = parent ++ [name] := by
  rw [named, hparts, entry_name hdot hdots] at hnamed
  cases hwalk : walk tree.nodes MAXSYMLINKS (target.start tree.cwd) front with
  | none => simp [hwalk] at hnamed
  | some parent =>
    simp only [hwalk, Option.ite_none_left_eq_some, Option.some.injEq] at hnamed
    exact ⟨parent, rfl, hnamed.1, hnamed.2.symm⟩

/-- What is no directory is reached by a name. -/
theorem exists_name (hlookup : lookup tree.nodes tree.cwd target = some top)
    (hdir : tree.nodes top ≠ some .dir) :
    ∃ front name, target.parts = front ++ [name] ∧ name ≠ "." ∧ name ≠ ".." := by
  rcases List.eq_nil_or_concat' target.parts with hnil | ⟨front, name, hparts⟩
  · rw [lookup, hnil, walk_nil, Option.some.injEq] at hlookup
    exact absurd (hlookup ▸ tree.start_dir target) hdir
  · refine ⟨front, name, hparts, ?_⟩
    rw [← not_or]
    intro hname
    rw [lookup, hparts] at hlookup
    obtain ⟨middle, hmiddle, hmiddleDir⟩ :=
      walk_front tree.wellFormed (tree.start_dir target) (List.cons_ne_nil name []) hlookup
    obtain ⟨links, hlinks⟩ := walk_append hmiddle hmiddleDir
    rw [hlinks] at hlookup
    rcases hname with rfl | rfl
    · rw [walk_dot, Option.some.injEq] at hlookup
      exact hdir (hlookup ▸ hmiddleDir)
    · rw [walk_dots, Option.some.injEq] at hlookup
      exact hdir (hlookup ▸ tree.wellFormed.dropLast hmiddleDir)

theorem isDir_iff (hlookup : lookup tree.nodes tree.cwd target = some top) :
    isDir tree.nodes tree.cwd target = true ↔ tree.nodes top = some .dir := by
  rw [isDir, hlookup]
  exact decide_eq_true_iff

theorem unlink_eq (hlookup : lookup tree.nodes tree.cwd target = some top)
    (hnamed : named tree.nodes tree.cwd target = some top) (hdir : tree.nodes top ≠ some .dir) :
    unlink tree.nodes tree.cwd target = .ok (without tree.nodes top) := by
  obtain ⟨front, name, hparts, hdot, hdots⟩ := exists_name hlookup hdir
  obtain ⟨parent, hparent, hnode, rfl⟩ := exists_parent hparts hdot hdots hnamed
  rw [← tree.wellFormed.update_eq hdir, unlink, hparts, List.getLast?_concat, List.dropLast_concat]
  simp only [lookup, Path.start] at hparent ⊢
  simp only [hparent, hdot, hdots, or_self, if_false]
  cases hkind : tree.nodes (parent ++ [name]) with
  | none => exact absurd hkind hnode
  | some kind =>
    cases kind with
    | dir => exact absurd hkind hdir
    | file => rfl
    | link link => rfl

theorem namedFromOutside_iff {front : List String} {name : String}
    (hparts : target.parts = front ++ [name])
    (hlookup : lookup tree.nodes tree.cwd target = some top) :
    NamedFromOutside tree target ↔ name ≠ "." ∧ name ≠ ".." ∧
      ∀ other ∈ visited tree.nodes MAXSYMLINKS (target.start tree.cwd) front,
        ¬ Below top other := by
  constructor
  · rintro ⟨front', name', hparts', hdot, hdots, hvisited⟩
    obtain ⟨rfl, hname⟩ := List.append_inj' (hparts.symm.trans hparts') rfl
    obtain rfl := List.singleton_inj.mp hname
    exact ⟨hdot, hdots, hvisited top hlookup⟩
  · rintro ⟨hdot, hdots, hvisited⟩
    refine ⟨front, name, hparts, hdot, hdots, fun top' htop' => ?_⟩
    rw [hlookup, Option.some.injEq] at htop'
    exact htop' ▸ hvisited

theorem rmdir_missing {nodes : Nodes} {front : List String} {name : String}
    (hparts : target.parts = front ++ [name])
    (h : lookup nodes tree.cwd { target with parts := front } = none) :
    rmdir nodes tree.cwd target = .error .ENOENT := by
  rw [rmdir, hparts, List.getLast?_concat, List.dropLast_concat]
  simp only [h]

theorem rmdir_dots {nodes : Nodes} {front : List String} {name : String}
    (hparts : target.parts = front ++ [name]) (hname : name = "." ∨ name = "..") :
    ∃ error, rmdir nodes tree.cwd target = .error error := by
  cases hfront : lookup nodes tree.cwd { target with parts := front } with
  | none => exact ⟨.ENOENT, rmdir_missing hparts hfront⟩
  | some parent =>
    rw [rmdir, hparts, List.getLast?_concat, List.dropLast_concat]
    simp only [hfront]
    rcases hname with rfl | rfl
    · exact ⟨.EINVAL, rfl⟩
    · exact ⟨.ENOTEMPTY, rfl⟩

theorem rmdir_name {nodes : Nodes} {front : List String} {name : String} {parent : Location}
    (hparts : target.parts = front ++ [name]) (hdot : name ≠ ".") (hdots : name ≠ "..")
    (h : lookup nodes tree.cwd { target with parts := front } = some parent)
    (hdir : nodes (parent ++ [name]) = some .dir) :
    rmdir nodes tree.cwd target = .ok (without nodes (parent ++ [name])) := by
  rw [rmdir, hparts, List.getLast?_concat, List.dropLast_concat]
  simp only [h, if_neg hdot, if_neg hdots, if_pos hdir]

theorem rmtree_raised {error : Errno} (hlookup : lookup tree.nodes tree.cwd target = some top)
    (h : rmdir (emptied tree.nodes top) tree.cwd target = .error error) :
    rmtree tree.nodes tree.cwd target = (.raised error, emptied tree.nodes top) := by
  rw [rmtree, hlookup]
  simp only [h]

/-- The directory that was emptied is removed when its path still leads to it. -/
theorem rmtree_eq (hlookup : lookup tree.nodes tree.cwd target = some top)
    (hnamed : named tree.nodes tree.cwd target = some top) (hdir : tree.nodes top = some .dir) :
    NamedFromOutside tree target ∧
        rmtree tree.nodes tree.cwd target = (.removed, without tree.nodes top) ∨
      ¬ NamedFromOutside tree target ∧
        ∃ error left, rmtree tree.nodes tree.cwd target = (.raised error, left) := by
  rcases List.eq_nil_or_concat' target.parts with hnil | ⟨front, name, hparts⟩
  · refine .inr ⟨?_, _, _, rmtree_raised hlookup (by rw [rmdir, hnil]; rfl)⟩
    rintro ⟨front, name, hparts, -⟩
    simp [hnil] at hparts
  rw [namedFromOutside_iff hparts hlookup]
  by_cases hname : name = "." ∨ name = ".."
  · obtain ⟨error, herror⟩ := rmdir_dots hparts hname
    exact .inr ⟨fun h => hname.elim h.1 h.2.1, _, _, rmtree_raised hlookup herror⟩
  rw [not_or] at hname
  have hfront : lookup (emptied tree.nodes top) tree.cwd { target with parts := front } =
      if ∀ other ∈ visited tree.nodes MAXSYMLINKS (target.start tree.cwd) front,
        ¬ Below top other then walk tree.nodes MAXSYMLINKS (target.start tree.cwd) front
      else none := walk_emptied
  by_cases hvisited : ∀ other ∈ visited tree.nodes MAXSYMLINKS (target.start tree.cwd) front,
      ¬ Below top other
  · refine .inl ⟨⟨hname.1, hname.2, hvisited⟩, ?_⟩
    obtain ⟨parent, hparent, -, rfl⟩ := exists_parent hparts hname.1 hname.2 hnamed
    rw [if_pos hvisited, hparent] at hfront
    have hkeep : emptied tree.nodes (parent ++ [name]) (parent ++ [name]) = some .dir := by
      rw [emptied, if_neg fun h => h.2 rfl, hdir]
    rw [rmtree, hlookup]
    simp only [rmdir_name hparts hname.1 hname.2 hfront hkeep, without_emptied]
  · rw [if_neg hvisited] at hfront
    exact .inr ⟨fun h => hvisited h.2.2, _, _,
      rmtree_raised hlookup (rmdir_missing hparts hfront)⟩

/-- A removal is safe just when a directory is named by a path that does not run through it. -/
theorem safe_remove_safe_iff (tree : Tree) (root target : Path) :
    Safe tree root target (safeRemove tree.nodes tree.cwd root target) ↔
      (refusal tree.nodes tree.cwd root target = none →
        isDir tree.nodes tree.cwd target = true → NamedFromOutside tree target) := by
  cases hlookup : lookup tree.nodes tree.cwd target with
  | none =>
    have hdir : isDir tree.nodes tree.cwd target = false := by rw [isDir, hlookup]
    have hexists : pathExists tree.nodes tree.cwd target = false := by
      rw [pathExists, hlookup]
      rfl
    refine iff_of_true ?_ (by simp [hdir])
    rw [safeRemove, hexists]
    cases hlink : isSymlink tree.nodes tree.cwd target with
    | false => exact ⟨rfl, named_eq_none hexists hlink⟩
    | true =>
      cases hrefusal : refusal tree.nodes tree.cwd root target with
      | some message => rfl
      | none =>
        rw [not_link_of_guarded hrefusal] at hlink
        cases hlink
  | some top =>
    have hexists : pathExists tree.nodes tree.cwd target = true := by
      rw [pathExists, hlookup]
      rfl
    rw [safeRemove, hexists]
    cases hrefusal : refusal tree.nodes tree.cwd root target with
    | some message => exact iff_of_true rfl nofun
    | none =>
      have hlink := not_link_of_guarded hrefusal
      have hnamed := named_of_lookup hlink hlookup
      have hremoves := removes_exactly hrefusal hlookup
      rw [hlink, isDir_iff hlookup]
      by_cases hdir : tree.nodes top = some .dir
      · have hisDir := (isDir_iff hlookup).mpr hdir
        simp only [hisDir, hdir, forall_const, Bool.not_true, Bool.false_and, Bool.not_false,
          Bool.true_and, Bool.false_eq_true, if_false, if_true]
        rcases rmtree_eq hlookup hnamed hdir with ⟨hfrom, hrmtree⟩ | ⟨hfrom, error, left, hrmtree⟩
        · rw [hrmtree]
          exact iff_of_true ⟨top, hremoves⟩ hfrom
        · rw [hrmtree]
          exact iff_of_false id hfrom
      · refine iff_of_true ?_ fun _ hdir' => absurd hdir' hdir
        have hisDir : isDir tree.nodes tree.cwd target = false :=
          Bool.eq_false_of_not_eq_true fun h => hdir ((isDir_iff hlookup).mp h)
        simp only [hisDir, Bool.not_true, Bool.false_and, Bool.false_eq_true, if_false,
          unlink_eq hlookup hnamed hdir]
        exact ⟨top, hremoves⟩

end Removals

/-! ## A working directory with one bundle -/

def bundleNodes : Nodes := fun location =>
  if location = [] ∨ location = ["work"] ∨ location = ["work", "bundle"] then some .dir else none

def bundleTree : Tree where
  nodes := bundleNodes
  cwd := []
  wellFormed := by
    refine ⟨rfl, fun location name h => ?_⟩
    have hlocation : location ++ [name] = ["work"] ∨ location ++ [name] = ["work", "bundle"] := by
      by_contra hother
      rw [not_or] at hother
      exact h (if_neg (by simp [hother]))
    rcases hlocation with hwork | hbundle
    · obtain ⟨rfl, -⟩ := List.append_inj' (hwork.trans (List.nil_append _).symm) rfl
      rfl
    · have hsplit : location ++ [name] = ["work"] ++ ["bundle"] := hbundle
      obtain ⟨rfl, -⟩ := List.append_inj' hsplit rfl
      rfl
  cwd_dir := rfl

/-- The bundle is gone, and what was asked for is not. -/
theorem dots_at_the_end_raise :
    let ended := safeRemove bundleNodes [] ⟨true, ["work"]⟩ ⟨true, ["work", "bundle", ".."]⟩
    ended.1 = .raised .ENOENT ∧ ended.2 ["work", "bundle"] = none ∧
      ended.2 ["work"] = some .dir ∧
      ¬ Safe bundleTree ⟨true, ["work"]⟩ ⟨true, ["work", "bundle", ".."]⟩ ended := by
  intro ended
  have hraised : ended.1 = .raised .ENOENT := by decide +kernel
  refine ⟨hraised, by decide +kernel, by decide +kernel, ?_⟩
  obtain ⟨how, left⟩ := ended
  obtain rfl : how = .raised .ENOENT := hraised
  exact id

end BuildTools.EntryCleanup
