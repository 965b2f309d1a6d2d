import Mathlib.Data.List.Infix
import Mathlib.Tactic

/-!
# Trees with symbolic links

A tree is given by what stands at each location. A path is walked part by part from a directory,
and a link in it is walked in its turn; only so many links are followed.
-/

namespace LinkedTrees

/-- The names from the top of the tree. -/
abbrev Location := List String

structure Path where
  absolute : Bool
  parts : List String
  deriving DecidableEq

inductive Kind
  | file
  | dir
  | link (target : Path)
  deriving DecidableEq

abbrev Nodes := Location → Option Kind

structure WellFormed (nodes : Nodes) : Prop where
  top : nodes [] = some .dir
  parent : ∀ location name, nodes (location ++ [name]) ≠ none → nodes location = some .dir

/-- Where the walk of a path starts. -/
def Path.start (path : Path) (here : Location) : Location :=
  if path.absolute then [] else here

section Walks

variable (nodes : Nodes)

/-- A walk, with what is done at a link. -/
def walkParts (onLink : Location → List String → Option Location) :
    Location → List String → Option Location
  | here, [] => some here
  | here, part :: rest =>
    if part = "." then
      walkParts onLink here rest
    else if part = ".." then
      walkParts onLink here.dropLast rest
    else
      match nodes (here ++ [part]) with
      | none => none
      | some .file => if rest = [] then some (here ++ [part]) else none
      | some .dir => walkParts onLink (here ++ [part]) rest
      | some (.link target) => onLink (target.start here) (target.parts ++ rest)

/-- The location that a path leads to when at most so many links are followed. -/
def walk : ℕ → Location → List String → Option Location
  | 0 => walkParts nodes fun _ _ => none
  | links + 1 => walkParts nodes (walk links)

def visitedParts (onLink : Location → List String → List Location) :
    Location → List String → List Location
  | _, [] => []
  | here, part :: rest =>
    if part = "." then
      visitedParts onLink here rest
    else if part = ".." then
      visitedParts onLink here.dropLast rest
    else
      (here ++ [part]) :: match nodes (here ++ [part]) with
        | some .dir => visitedParts onLink (here ++ [part]) rest
        | some (.link target) => onLink (target.start here) (target.parts ++ rest)
        | _ => []

/-- The locations that a walk looks at by their names. -/
def visited : ℕ → Location → List String → List Location
  | 0 => visitedParts nodes fun _ _ => []
  | links + 1 => visitedParts nodes (visited links)

def realParts (onLink : Location → String → Path → List String → Location) :
    Location → List String → Location
  | here, [] => here
  | here, part :: rest =>
    if part = "." then
      realParts onLink here rest
    else if part = ".." then
      realParts onLink here.dropLast rest
    else
      match nodes (here ++ [part]) with
      | some (.link target) => onLink here part target rest
      | _ => realParts onLink (here ++ [part]) rest

/-- A path without its links; what does not exist is kept as it is written. -/
def realpath : ℕ → Location → List String → Location
  | 0 => realParts nodes fun here part _ rest => here ++ part :: rest
  | links + 1 => realParts nodes fun here _ target rest =>
    realpath links (target.start here) (target.parts ++ rest)

/-- What a path names, without following a link at its end. -/
def entry (links : ℕ) (here : Location) (parts : List String) : Option Location :=
  match parts.getLast? with
  | none => some here
  | some name =>
    if name = "." ∨ name = ".." then
      walk nodes links here parts
    else
      match walk nodes links here parts.dropLast with
      | none => none
      | some parent => if nodes (parent ++ [name]) = none then none else some (parent ++ [name])

/-- A location is strictly below another one. -/
def Below (location other : Location) : Prop :=
  location <+: other ∧ other ≠ location

instance (location other : Location) : Decidable (Below location other) :=
  inferInstanceAs (Decidable (_ ∧ _))

/-- Nothing is left below a location. -/
def emptied (location : Location) : Nodes :=
  fun other => if Below location other then none else nodes other

/-- Nothing is left at a location or below it. -/
def without (location : Location) : Nodes :=
  fun other => if location <+: other then none else nodes other

end Walks

section Laws

variable {nodes : Nodes} {links : ℕ} {here location : Location} {front parts : List String}
  {onLink : Location → List String → Option Location}

theorem WellFormed.dropLast (h : WellFormed nodes) (hhere : nodes here = some .dir) :
    nodes here.dropLast = some .dir := by
  rcases List.eq_nil_or_concat' here with rfl | ⟨parent, name, rfl⟩
  · exact hhere
  · rw [List.dropLast_concat]
    exact h.parent parent name (by simp [hhere])

theorem WellFormed.start (h : WellFormed nodes) (hhere : nodes here = some .dir) (target : Path) :
    nodes (target.start here) = some .dir := by
  unfold Path.start
  split_ifs
  · exact h.top
  · exact hhere

/-- Only a directory has anything below it. -/
theorem WellFormed.below (h : WellFormed nodes) (hlocation : nodes location ≠ some .dir)
    {other : Location} (hbelow : Below location other) : nodes other = none := by
  obtain ⟨⟨rest, rfl⟩, hne⟩ := hbelow
  induction rest using List.reverseRecOn with
  | nil => exact absurd (List.append_nil location) hne
  | append_singleton rest name ih =>
    by_contra hnode
    rw [← List.append_assoc] at hnode
    have hparent := h.parent _ name hnode
    by_cases hrest : rest = []
    · rw [hrest, List.append_nil] at hparent
      exact hlocation hparent
    · rw [ih (by simpa using hrest)] at hparent
      cases hparent

theorem without_emptied : without (emptied nodes location) location = without nodes location := by
  funext other
  unfold without emptied
  by_cases hprefix : location <+: other
  · rw [if_pos hprefix, if_pos hprefix]
  · rw [if_neg hprefix, if_neg hprefix, if_neg fun hbelow => hprefix hbelow.1]

/-- Taking away what is no directory takes away nothing else. -/
theorem WellFormed.update_eq (h : WellFormed nodes) (hlocation : nodes location ≠ some .dir) :
    Function.update nodes location none = without nodes location := by
  funext other
  unfold without
  rw [Function.update_apply]
  by_cases hother : other = location
  · rw [if_pos hother, if_pos (hother ▸ List.prefix_rfl)]
  · rw [if_neg hother]
    by_cases hprefix : location <+: other
    · rw [if_pos hprefix, h.below hlocation (And.intro hprefix hother)]
    · rw [if_neg hprefix]

theorem walkParts_front (h : WellFormed nodes)
    (hlink : ∀ here front parts location, nodes here = some .dir → parts ≠ [] →
      onLink here (front ++ parts) = some location →
      ∃ middle, onLink here front = some middle ∧ nodes middle = some .dir)
    (hhere : nodes here = some .dir) (hparts : parts ≠ [])
    (hwalk : walkParts nodes onLink here (front ++ parts) = some location) :
    ∃ middle, walkParts nodes onLink here front = some middle ∧ nodes middle = some .dir := by
  induction front generalizing here with
  | nil => exact ⟨here, rfl, hhere⟩
  | cons part front ih =>
    rw [List.cons_append, walkParts] at hwalk
    rw [walkParts]
    by_cases hdot : part = "."
    · rw [if_pos hdot] at hwalk ⊢
      exact ih hhere hwalk
    by_cases hdots : part = ".."
    · rw [if_neg hdot, if_pos hdots] at hwalk ⊢
      exact ih (h.dropLast hhere) hwalk
    rw [if_neg hdot, if_neg hdots] at hwalk ⊢
    cases hnode : nodes (here ++ [part]) with
    | none => simp [hnode] at hwalk
    | some kind =>
      cases kind with
      | file => simp [hnode, hparts] at hwalk
      | dir =>
        simp only [hnode] at hwalk ⊢
        exact ih hnode hwalk
      | link target =>
        simp only [hnode] at hwalk ⊢
        rw [← List.append_assoc] at hwalk
        exact hlink _ _ _ _ (h.start hhere target) hparts hwalk

/-- A walk of a path walks each of its beginnings. -/
theorem walk_front (h : WellFormed nodes) (hhere : nodes here = some .dir) (hparts : parts ≠ [])
    (hwalk : walk nodes links here (front ++ parts) = some location) :
    ∃ middle, walk nodes links here front = some middle ∧ nodes middle = some .dir := by
  induction links generalizing here front parts location with
  | zero => exact walkParts_front h nofun hhere hparts hwalk
  | succ links ih =>
    exact walkParts_front h (fun _ _ _ _ hhere hparts hwalk => ih hhere hparts hwalk) hhere hparts
      hwalk

theorem walkParts_append (links : ℕ) (hnow : walk nodes links = walkParts nodes onLink)
    (hlink : ∀ here front, onLink here front = some location → ∃ links', ∀ parts,
      onLink here (front ++ parts) = walk nodes links' location parts)
    (hwalk : walkParts nodes onLink here front = some location)
    (hlocation : nodes location = some .dir) : ∃ links', ∀ parts,
      walkParts nodes onLink here (front ++ parts) = walk nodes links' location parts := by
  induction front generalizing here with
  | nil =>
    obtain rfl := Option.some.inj hwalk
    exact ⟨links, fun parts => by rw [hnow, List.nil_append]⟩
  | cons part front ih =>
    simp only [List.cons_append, walkParts] at hwalk ⊢
    by_cases hdot : part = "."
    · simp only [if_pos hdot] at hwalk ⊢
      exact ih hwalk
    by_cases hdots : part = ".."
    · simp only [if_neg hdot, if_pos hdots] at hwalk ⊢
      exact ih hwalk
    simp only [if_neg hdot, if_neg hdots] at hwalk ⊢
    cases hnode : nodes (here ++ [part]) with
    | none => simp [hnode] at hwalk
    | some kind =>
      cases kind with
      | file =>
        simp only [hnode, Option.ite_none_right_eq_some, Option.some.injEq] at hwalk
        rw [← hwalk.2, hnode] at hlocation
        cases hlocation
      | dir =>
        simp only [hnode] at hwalk ⊢
        exact ih hwalk
      | link target =>
        simp only [hnode] at hwalk ⊢
        obtain ⟨links', hlinks'⟩ := hlink _ _ hwalk
        exact ⟨links', fun parts => by rw [← List.append_assoc, hlinks']⟩

/-- From a directory that a path leads to, the walk goes on. -/
theorem walk_append (hwalk : walk nodes links here front = some location)
    (hlocation : nodes location = some .dir) : ∃ links', ∀ parts,
      walk nodes links here (front ++ parts) = walk nodes links' location parts := by
  induction links generalizing here front with
  | zero => exact walkParts_append 0 rfl nofun hwalk hlocation
  | succ links ih =>
    exact walkParts_append (links + 1) rfl (fun _ _ hwalk => ih hwalk) hwalk hlocation

theorem realParts_eq {onLink' : Location → String → Path → List String → Location}
    (hlink : ∀ here part (target : Path) rest location,
      onLink (target.start here) (target.parts ++ rest) = some location →
      onLink' here part target rest = location)
    (hwalk : walkParts nodes onLink here parts = some location) :
    realParts nodes onLink' here parts = location := by
  induction parts generalizing here with
  | nil => exact Option.some.inj hwalk
  | cons part parts ih =>
    rw [walkParts] at hwalk
    rw [realParts]
    by_cases hdot : part = "."
    · rw [if_pos hdot] at hwalk ⊢
      exact ih hwalk
    by_cases hdots : part = ".."
    · rw [if_neg hdot, if_pos hdots] at hwalk ⊢
      exact ih hwalk
    rw [if_neg hdot, if_neg hdots] at hwalk ⊢
    cases hnode : nodes (here ++ [part]) with
    | none => simp [hnode] at hwalk
    | some kind =>
      cases kind with
      | file =>
        simp only [hnode, Option.ite_none_right_eq_some, Option.some.injEq] at hwalk ⊢
        obtain ⟨rfl, rfl⟩ := hwalk
        rfl
      | dir =>
        simp only [hnode] at hwalk ⊢
        exact ih hwalk
      | link target =>
        simp only [hnode] at hwalk ⊢
        exact hlink _ _ _ _ _ hwalk

theorem realpath_eq (hwalk : walk nodes links here parts = some location) :
    realpath nodes links here parts = location := by
  induction links generalizing here parts location with
  | zero => exact realParts_eq (fun _ _ _ _ _ hwalk => by cases hwalk) hwalk
  | succ links ih => exact realParts_eq (fun _ _ _ _ _ hwalk => ih hwalk) hwalk

theorem walkParts_emptied {top : Location} {onLink' : Location → List String → Option Location}
    {onVisited : Location → List String → List Location}
    (hlink : ∀ here parts, onLink' here parts =
      if ∀ other ∈ onVisited here parts, ¬ Below top other then onLink here parts else none) :
    walkParts (emptied nodes top) onLink' here parts =
      if ∀ other ∈ visitedParts nodes onVisited here parts, ¬ Below top other then
        walkParts nodes onLink here parts
      else
        none := by
  induction parts generalizing here with
  | nil => simp [walkParts, visitedParts]
  | cons part parts ih =>
    rw [walkParts, walkParts, visitedParts]
    by_cases hdot : part = "."
    · rw [if_pos hdot, if_pos hdot, if_pos hdot, ih]
    by_cases hdots : part = ".."
    · simp only [if_neg hdot, if_pos hdots, ih]
    simp only [if_neg hdot, if_neg hdots, List.forall_mem_cons]
    by_cases hbelow : Below top (here ++ [part])
    · simp [emptied, hbelow]
    have hkeep : emptied nodes top (here ++ [part]) = nodes (here ++ [part]) := if_neg hbelow
    rw [hkeep]
    cases nodes (here ++ [part]) with
    | none => simp [hbelow]
    | some kind =>
      cases kind with
      | file => simp [hbelow]
      | dir => simp only [hbelow, not_false_eq_true, true_and, ih]
      | link target => simp only [hbelow, not_false_eq_true, true_and, hlink]

/-- A walk in an emptied tree succeeds when it does not enter what was taken away. -/
theorem walk_emptied {top : Location} : walk (emptied nodes top) links here parts =
    if ∀ other ∈ visited nodes links here parts, ¬ Below top other then
      walk nodes links here parts
    else
      none := by
  induction links generalizing here parts with
  | zero => exact walkParts_emptied fun _ _ => by simp
  | succ links ih => exact walkParts_emptied fun _ _ => ih

theorem walk_nil : walk nodes links here [] = some here := by
  cases links with
  | zero => rfl
  | succ links => rfl

theorem walk_dot : walk nodes links here ["."] = some here := by
  cases links with
  | zero => rfl
  | succ links => rfl

theorem walk_dots : walk nodes links here [".."] = some here.dropLast := by
  cases links with
  | zero => rfl
  | succ links => rfl

/-- A name that is no link leads to what bears it. -/
theorem walk_name {name : String} (hdot : name ≠ ".") (hdots : name ≠ "..")
    (hlink : ∀ target, nodes (here ++ [name]) ≠ some (.link target)) :
    walk nodes links here [name] =
      if nodes (here ++ [name]) = none then none else some (here ++ [name]) := by
  have hparts : ∀ onLink, walkParts nodes onLink here [name] =
      if nodes (here ++ [name]) = none then none else some (here ++ [name]) := by
    intro onLink
    rw [walkParts, if_neg hdot, if_neg hdots]
    cases hnode : nodes (here ++ [name]) with
    | none => rfl
    | some kind =>
      cases kind with
      | file => rfl
      | dir => rfl
      | link target => exact absurd hnode (hlink target)
  cases links with
  | zero => exact hparts _
  | succ links => exact hparts _

theorem entry_name {name : String} (hdot : name ≠ ".") (hdots : name ≠ "..") :
    entry nodes links here (front ++ [name]) =
      match walk nodes links here front with
      | none => none
      | some parent => if nodes (parent ++ [name]) = none then none else some (parent ++ [name]) := by
  rw [entry, List.getLast?_concat]
  simp only [hdot, hdots, or_self, if_false, List.dropLast_concat]

theorem entry_dots {name : String} (h : name = "." ∨ name = "..") :
    entry nodes links here (front ++ [name]) = walk nodes links here (front ++ [name]) := by
  rw [entry, List.getLast?_concat]
  exact if_pos h

/-- What is named and is no link is where the path leads to. -/
theorem walk_of_entry (h : WellFormed nodes) (hentry : entry nodes links here parts = some location)
    (hlink : ∀ target, nodes location ≠ some (.link target)) :
    walk nodes links here parts = some location := by
  rcases List.eq_nil_or_concat' parts with rfl | ⟨front, name, rfl⟩
  · exact walk_nil.trans hentry
  by_cases hname : name = "." ∨ name = ".."
  · rwa [entry_dots hname] at hentry
  rw [not_or] at hname
  rw [entry_name hname.1 hname.2] at hentry
  cases hwalk : walk nodes links here front with
  | none => simp [hwalk] at hentry
  | some parent =>
    simp only [hwalk, Option.ite_none_left_eq_some, Option.some.injEq] at hentry
    obtain ⟨hnode, rfl⟩ := hentry
    obtain ⟨links', hlinks'⟩ := walk_append hwalk (h.parent parent name hnode)
    rw [hlinks', walk_name hname.1 hname.2 hlink, if_neg hnode]

/-- Where a path leads to is what it names, unless that is a link. -/
theorem entry_of_walk (h : WellFormed nodes) (hhere : nodes here = some .dir)
    (hwalk : walk nodes links here parts = some location) :
    ∃ other, entry nodes links here parts = some other ∧
      (other = location ∨ ∃ target, nodes other = some (.link target)) := by
  rcases List.eq_nil_or_concat' parts with rfl | ⟨front, name, rfl⟩
  · exact ⟨location, walk_nil.symm.trans hwalk, .inl rfl⟩
  by_cases hname : name = "." ∨ name = ".."
  · exact ⟨location, by rwa [entry_dots hname], .inl rfl⟩
  rw [not_or] at hname
  obtain ⟨parent, hparent, hdir⟩ := walk_front h hhere (List.cons_ne_nil name []) hwalk
  obtain ⟨links', hlinks'⟩ := walk_append hparent hdir
  rw [hlinks'] at hwalk
  rw [entry_name hname.1 hname.2, hparent]
  by_cases hlink : ∃ target, nodes (parent ++ [name]) = some (.link target)
  · obtain ⟨target, htarget⟩ := hlink
    exact ⟨parent ++ [name], by simp [htarget], .inr ⟨target, htarget⟩⟩
  · rw [walk_name hname.1 hname.2 (not_exists.mp hlink)] at hwalk
    exact ⟨location, hwalk, .inl rfl⟩

end Laws

end LinkedTrees
