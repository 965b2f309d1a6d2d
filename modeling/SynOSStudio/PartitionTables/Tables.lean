import SynOSStudio.IntervalLists.Extents

/-!
# Partition tables

A table numbers its entries and keeps them apart. A new entry takes the lowest number that is
free. An operation fails where it would break the table, and otherwise keeps it sound.
-/

namespace PartitionTables

open IntervalLists

/-! ## Numbers -/

section Numbers

/-- The lowest positive number that is not used. -/
def IsLowest (used : List ℤ) (n : ℤ) : Prop :=
  0 < n ∧ n ∉ used ∧ ∀ m, 0 < m → m < n → m ∈ used

def lowest (used : List ℤ) : ℤ :=
  ((List.range (used.length + 1)).find? fun k : ℕ => ((k : ℤ) + 1) ∉ used).getD 0 + 1

theorem IsLowest.unique {used : List ℤ} {m n : ℤ} (hm : IsLowest used m) (hn : IsLowest used n) :
    m = n := by
  rcases lt_trichotomy m n with h | h | h
  · exact absurd (hn.2.2 m hm.1 h) hm.2.1
  · exact h
  · exact absurd (hm.2.2 n hn.1 h) hn.2.1

/-- One number more than are used cannot all be used. -/
theorem exists_free (used : List ℤ) : ∃ k ∈ List.range (used.length + 1), ((k : ℤ) + 1) ∉ used := by
  by_contra hall
  push Not at hall
  have hnodup : ((List.range (used.length + 1)).map fun k : ℕ => (k : ℤ) + 1).Nodup :=
    (List.nodup_range).map fun a b h => by omega
  have hsubset : ((List.range (used.length + 1)).map fun k : ℕ => (k : ℤ) + 1) ⊆ used := by
    intro n hn
    obtain ⟨k, hk, rfl⟩ := List.mem_map.mp hn
    exact hall k hk
  have hlength := (hnodup.subperm hsubset).length_le
  rw [List.length_map, List.length_range] at hlength
  omega

theorem lowest_spec (used : List ℤ) : IsLowest used (lowest used) := by
  unfold lowest
  cases hfound : (List.range (used.length + 1)).find?
      fun k : ℕ => decide (((k : ℤ) + 1) ∉ used) with
  | none =>
    obtain ⟨k, hk, hfree⟩ := exists_free used
    exact absurd hfree (by simpa using List.find?_eq_none.mp hfound k hk)
  | some k =>
    obtain ⟨hfree, -, hbefore⟩ := List.find?_range_eq_some.mp hfound
    refine ⟨?_, by simpa using hfree, fun m hpos hlt => ?_⟩
    · rw [Option.getD_some]
      omega
    · rw [Option.getD_some] at hlt
      have hused := hbefore (m - 1).toNat (by omega)
      have hm : ((m - 1).toNat : ℤ) + 1 = m := by omega
      rw [hm] at hused
      simpa using hused

/-- Numbers that are handed out one after another. -/
def Handed : List ℤ → List ℤ → Prop
  | _, [] => True
  | used, n :: numbers => IsLowest used n ∧ Handed (used ++ [n]) numbers

end Numbers

/-! ## Tables and their operations -/

section Operations

variable {φ : Type}

structure Entry (φ : Type) where
  number : ℤ
  range : Extent ℤ
  flags : List φ
  deriving DecidableEq

structure Table (φ : Type) where
  size : ℤ
  entries : List (Entry φ)
  deriving DecidableEq

def Table.numbers (table : Table φ) : List ℤ := table.entries.map Entry.number

/-- Whether two ranges have a point in common. -/
def meets (a b : Extent ℤ) : Bool := max a.start b.start < min a.stop b.stop

theorem meets_eq_false {a b : Extent ℤ} : meets a b = false ↔ Disjoint a.points b.points := by
  rw [meets, decide_eq_false_iff_not, not_lt]
  exact Set.Ico_disjoint_Ico.symm

theorem apart_of_le {a b : Extent ℤ} (h : a.stop ≤ b.start) : Disjoint a.points b.points :=
  Set.Ico_disjoint_Ico.mpr ((min_le_left _ _).trans (h.trans (le_max_right _ _)))

namespace Table

variable (table : Table φ)

def clear : Table φ := { table with entries := [] }

/-- A new entry, where nothing is yet. -/
def make (range : Extent ℤ) : Option (Table φ) :=
  if 0 ≤ range.start ∧ range.start < range.stop ∧ range.stop ≤ table.size ∧
      ∀ e ∈ table.entries, meets e.range range = false then
    some { table with entries := table.entries ++ [⟨lowest table.numbers, range, []⟩] }
  else none

def remove (number : ℤ) : Option (Table φ) :=
  if number ∈ table.numbers then
    some { table with entries := table.entries.filter fun e => e.number ≠ number }
  else none

/-- Change the entry of a number. -/
def change (number : ℤ) (f : Entry φ → Entry φ) : Table φ :=
  { table with entries := table.entries.map fun e => if e.number = number then f e else e }

def mark (number : ℤ) (flag : φ) : Option (Table φ) :=
  if number ∈ table.numbers then
    some (table.change number fun e => { e with flags := e.flags ++ [flag] })
  else none

/-- An earlier end for an entry. -/
def shrink (number stop : ℤ) : Option (Table φ) :=
  if number ∈ table.numbers ∧ ∀ e ∈ table.entries, e.number = number →
      e.range.start < stop ∧ stop ≤ e.range.stop then
    some (table.change number fun e => { e with range := ⟨e.range.start, stop⟩ })
  else none

/-- Make an entry and give it its flags. -/
def create (e : Entry φ) : Option (Table φ) := do
  let made ← table.make e.range
  e.flags.foldlM (fun table flag => table.mark e.number flag) made

end Table

end Operations

/-! ## What the operations keep -/

section Soundness

variable {φ : Type} {table after : Table φ}

structure Table.Sound (table : Table φ) : Prop where
  positive : ∀ e ∈ table.entries, 0 < e.number
  numbered : table.numbers.Nodup
  apart : table.entries.Pairwise fun e f => Disjoint e.range.points f.range.points
  inside : ∀ e ∈ table.entries, 0 ≤ e.range.start ∧ e.range.stop ≤ table.size

namespace Table

theorem sound_clear : table.clear.Sound where
  positive := fun _ he => absurd he List.not_mem_nil
  numbered := List.nodup_nil
  apart := List.Pairwise.nil
  inside := fun _ he => absurd he List.not_mem_nil

theorem Sound.make {range : Extent ℤ} (h : table.Sound) (hmade : table.make range = some after) :
    after.Sound := by
  unfold Table.make at hmade
  split at hmade
  · rename_i hfits
    obtain ⟨hstart, -, hstop, hapart⟩ := hfits
    cases hmade
    have hlowest := lowest_spec table.numbers
    refine ⟨fun e he => ?_, ?_, ?_, fun e he => ?_⟩
    · rcases List.mem_append.mp he with he | he
      · exact h.positive e he
      · rw [List.mem_singleton.mp he]
        exact hlowest.1
    · rw [numbers, List.map_append]
      refine List.nodup_append.mpr ⟨h.numbered, List.nodup_singleton _, fun a ha b hb => ?_⟩
      rw [List.mem_singleton.mp hb]
      rintro rfl
      exact hlowest.2.1 ha
    · refine List.pairwise_append.mpr ⟨h.apart, List.pairwise_singleton _ _, fun e he f hf => ?_⟩
      rw [List.mem_singleton.mp hf]
      exact meets_eq_false.mp (hapart e he)
    · rcases List.mem_append.mp he with he | he
      · exact h.inside e he
      · rw [List.mem_singleton.mp he]
        exact ⟨hstart, hstop⟩
  · cases hmade

theorem Sound.remove {number : ℤ} (h : table.Sound) (hremoved : table.remove number = some after) :
    after.Sound := by
  unfold Table.remove at hremoved
  split at hremoved
  · cases hremoved
    have hsub := List.filter_sublist (p := fun e : Entry φ => decide (e.number ≠ number))
      (l := table.entries)
    exact ⟨fun e he => h.positive e (hsub.subset he), h.numbered.sublist (hsub.map _),
      h.apart.sublist hsub, fun e he => h.inside e (hsub.subset he)⟩
  · cases hremoved

/-- An entry may be changed in place as long as it keeps its number and takes no more room. -/
theorem Sound.change {number : ℤ} {f : Entry φ → Entry φ} (h : table.Sound)
    (hf : ∀ e ∈ table.entries, e.number = number → (f e).number = number ∧
      e.range.start ≤ (f e).range.start ∧ (f e).range.stop ≤ e.range.stop) :
    (table.change number f).Sound := by
  have hchanged : ∀ e ∈ table.entries, (if e.number = number then f e else e).number = e.number ∧
      e.range.start ≤ (if e.number = number then f e else e).range.start ∧
      (if e.number = number then f e else e).range.stop ≤ e.range.stop := by
    intro e he
    split
    · rename_i hnumber
      rw [hnumber]
      exact hf e he hnumber
    · exact ⟨rfl, le_rfl, le_rfl⟩
  have hpoints : ∀ e ∈ table.entries,
      (if e.number = number then f e else e).range.points ⊆ e.range.points := fun e he =>
    Set.Ico_subset_Ico (hchanged e he).2.1 (hchanged e he).2.2
  refine ⟨fun g hg => ?_, ?_, ?_, fun g hg => ?_⟩
  · obtain ⟨e, he, rfl⟩ := List.mem_map.mp hg
    rw [(hchanged e he).1]
    exact h.positive e he
  · have hnumbers : (table.change number f).numbers = table.numbers := by
      rw [numbers, numbers, Table.change, List.map_map]
      exact List.map_congr_left fun e he => (hchanged e he).1
    rw [hnumbers]
    exact h.numbered
  · rw [Table.change, List.pairwise_map]
    exact h.apart.imp_of_mem fun he hf hdisjoint =>
      hdisjoint.mono (hpoints _ he) (hpoints _ hf)
  · obtain ⟨e, he, rfl⟩ := List.mem_map.mp hg
    have hinside := h.inside e he
    exact ⟨hinside.1.trans (hchanged e he).2.1, (hchanged e he).2.2.trans hinside.2⟩

theorem Sound.mark {number : ℤ} {flag : φ} (h : table.Sound)
    (hmarked : table.mark number flag = some after) : after.Sound := by
  unfold Table.mark at hmarked
  split at hmarked
  · cases hmarked
    exact h.change fun e _ hnumber => ⟨hnumber, le_rfl, le_rfl⟩
  · cases hmarked

theorem Sound.shrink {number stop : ℤ} (h : table.Sound)
    (hshrunk : table.shrink number stop = some after) : after.Sound := by
  unfold Table.shrink at hshrunk
  split at hshrunk
  · rename_i hfits
    cases hshrunk
    exact h.change fun e he hnumber => ⟨hnumber, le_rfl, (hfits.2 e he hnumber).2⟩
  · cases hshrunk

/-- What single operations keep, a sequence of them keeps. -/
theorem Sound.foldlM {ι : Type} {operation : Table φ → ι → Option (Table φ)}
    (hkeeps : ∀ {table after : Table φ} {item : ι}, table.Sound →
      operation table item = some after → after.Sound)
    {items : List ι} (h : table.Sound) (hafter : items.foldlM operation table = some after) :
    after.Sound := by
  induction items generalizing table with
  | nil =>
    cases hafter
    exact h
  | cons item items ih =>
    rw [List.foldlM_cons] at hafter
    obtain ⟨next, hnext, hafter⟩ := Option.bind_eq_some_iff.mp hafter
    exact ih (hkeeps h hnext) hafter

end Table

end Soundness

/-! ## Creating several entries -/

section Creation

variable {φ : Type} {table : Table φ}

namespace Table

theorem change_append {entries : List (Entry φ)} {e : Entry φ} {f : Entry φ → Entry φ}
    (hfree : ∀ g ∈ entries, g.number ≠ e.number) :
    (Table.mk table.size (entries ++ [e])).change e.number f =
      ⟨table.size, entries ++ [f e]⟩ := by
  have hkept : entries.map (fun g => if g.number = e.number then f g else g) = entries :=
    (List.map_congr_left fun g hg => if_neg (hfree g hg)).trans (List.map_id' entries)
  rw [change, List.map_append, hkept, List.map_singleton, if_pos rfl]

/-- Flags go to the entry that has just been made. -/
theorem mark_made {entries : List (Entry φ)} {number : ℤ} {range : Extent ℤ}
    (hfree : ∀ g ∈ entries, g.number ≠ number) (flags more : List φ) :
    more.foldlM (fun table flag => table.mark number flag)
        (Table.mk table.size (entries ++ [⟨number, range, flags⟩])) =
      some ⟨table.size, entries ++ [⟨number, range, flags ++ more⟩]⟩ := by
  induction more generalizing flags with
  | nil => simp
  | cons flag more ih =>
    have hmark : (Table.mk table.size (entries ++ [⟨number, range, flags⟩])).mark number flag =
        some ⟨table.size, entries ++ [⟨number, range, flags ++ [flag]⟩]⟩ := by
      unfold mark
      rw [if_pos (by simp [numbers])]
      exact congrArg some (change_append (e := ⟨number, range, flags⟩) hfree)
    rw [List.foldlM_cons, hmark, Option.bind_eq_bind, Option.bind_some, ih]
    simp

theorem create_eq {e : Entry φ} (hlowest : IsLowest table.numbers e.number)
    (hproper : 0 ≤ e.range.start ∧ e.range.start < e.range.stop ∧ e.range.stop ≤ table.size)
    (hapart : ∀ g ∈ table.entries, Disjoint g.range.points e.range.points) :
    table.create e = some ⟨table.size, table.entries ++ [e]⟩ := by
  have hnumber : lowest table.numbers = e.number := (lowest_spec _).unique hlowest
  have hmake : table.make e.range =
      some ⟨table.size, table.entries ++ [⟨e.number, e.range, []⟩]⟩ := by
    rw [make, if_pos ⟨hproper.1, hproper.2.1, hproper.2.2, fun g hg =>
      meets_eq_false.mpr (hapart g hg)⟩, hnumber]
  have hfree : ∀ g ∈ table.entries, g.number ≠ e.number := by
    intro g hg hsame
    exact hlowest.2.1 (hsame ▸ List.mem_map_of_mem hg)
  rw [create, hmake, Option.bind_eq_bind, Option.bind_some, mark_made hfree, List.nil_append]

/-- Entries with the numbers that are due and room of their own are created as they are wanted. -/
theorem foldlM_create {wanted : List (Entry φ)} (table : Table φ)
    (hnumbers : Handed table.numbers (wanted.map Entry.number))
    (hproper : ∀ e ∈ wanted,
      0 ≤ e.range.start ∧ e.range.start < e.range.stop ∧ e.range.stop ≤ table.size)
    (hapart : ∀ e ∈ wanted, ∀ g ∈ table.entries, Disjoint g.range.points e.range.points)
    (hwanted : wanted.Pairwise fun e f => Disjoint e.range.points f.range.points) :
    wanted.foldlM Table.create table = some ⟨table.size, table.entries ++ wanted⟩ := by
  induction wanted generalizing table with
  | nil => simp
  | cons e wanted ih =>
    have hcreate := create_eq hnumbers.1 (hproper e (by simp)) (hapart e (by simp))
    rw [List.foldlM_cons, hcreate, Option.bind_eq_bind, Option.bind_some]
    have hrest := ih ⟨table.size, table.entries ++ [e]⟩ (by simpa [numbers] using hnumbers.2)
      (fun f hf => hproper f (by simp [hf])) (fun f hf g hg => ?_) (List.pairwise_cons.mp hwanted).2
    · simpa using hrest
    · rcases List.mem_append.mp hg with hg | hg
      · exact hapart f (by simp [hf]) g hg
      · rw [List.mem_singleton.mp hg]
        exact (List.pairwise_cons.mp hwanted).1 f hf

end Table

end Creation

/-! ## Removing and shrinking several entries -/

section Editing

variable {φ : Type}

/-- What new ends leave of an entry. -/
def Entry.cut (ends : List (ℤ × ℤ)) (e : Entry φ) : Entry φ :=
  match ends.lookup e.number with
  | none => e
  | some stop => { e with range := ⟨e.range.start, stop⟩ }

@[simp] theorem Entry.cut_number (ends : List (ℤ × ℤ)) (e : Entry φ) :
    (e.cut ends).number = e.number := by
  unfold Entry.cut
  split <;> rfl

theorem Entry.cut_of_not_mem {ends : List (ℤ × ℤ)} {e : Entry φ}
    (h : e.number ∉ ends.map Prod.fst) : e.cut ends = e := by
  have hnone : ends.lookup e.number = none := by
    rw [List.lookup_eq_none_iff]
    intro p hp
    rw [bne_iff_ne]
    exact fun hsame => h (List.mem_map.mpr ⟨p, hp, hsame.symm⟩)
  rw [Entry.cut, hnone]

theorem Entry.cut_of_mem {ends : List (ℤ × ℤ)} {e : Entry φ} {stop : ℤ}
    (hnodup : (ends.map Prod.fst).Nodup) (h : (e.number, stop) ∈ ends) :
    e.cut ends = { e with range := ⟨e.range.start, stop⟩ } := by
  have hsome : ends.lookup e.number = some stop := by
    induction ends with
    | nil => cases h
    | cons p ends ih =>
      obtain ⟨hfirst, hrest⟩ := List.nodup_cons.mp hnodup
      rcases List.mem_cons.mp h with rfl | h
      · simp
      · have hne : e.number ≠ p.1 := fun hsame =>
          hfirst (hsame ▸ List.mem_map_of_mem (f := Prod.fst) h)
        rw [List.lookup_cons, beq_eq_false_iff_ne.mpr hne]
        exact ih hrest h
  rw [Entry.cut, hsome]

namespace Table

variable {table : Table φ}

theorem foldlM_remove {numbers : List ℤ} (table : Table φ) (hnodup : numbers.Nodup)
    (hmem : ∀ n ∈ numbers, n ∈ table.numbers) :
    numbers.foldlM Table.remove table =
      some { table with entries := table.entries.filter fun e => e.number ∉ numbers } := by
  induction numbers generalizing table with
  | nil => simp
  | cons n numbers ih =>
    obtain ⟨hn, hnodup⟩ := List.nodup_cons.mp hnodup
    rw [List.foldlM_cons, Table.remove, if_pos (hmem n (by simp)), Option.bind_eq_bind,
      Option.bind_some, ih _ hnodup]
    · simp only [Option.some.injEq, Table.mk.injEq, true_and, List.filter_filter]
      apply List.filter_congr
      intro e _
      simp [Bool.and_comm]
    · intro m hm
      obtain ⟨e, he, rfl⟩ := List.mem_map.mp (hmem m (by simp [hm]))
      refine List.mem_map.mpr ⟨e, List.mem_filter.mpr ⟨he, ?_⟩, rfl⟩
      rw [decide_eq_true_eq]
      rintro rfl
      exact hn hm

theorem change_stop {number stop : ℤ} {ends : List (ℤ × ℤ)} {e : Entry φ}
    (hnumber : number ∉ ends.map Prod.fst) :
    Entry.cut ends (if e.number = number then { e with range := ⟨e.range.start, stop⟩ } else e) =
      e.cut ((number, stop) :: ends) := by
  by_cases h : e.number = number
  · subst h
    rw [if_pos rfl, Entry.cut_of_not_mem (by exact hnumber)]
    simp [Entry.cut]
  · have hbeq : (e.number == number) = false := by simpa using h
    rw [if_neg h, Entry.cut, Entry.cut, List.lookup_cons, hbeq]

theorem foldlM_shrink {ends : List (ℤ × ℤ)} (table : Table φ)
    (hnodup : (ends.map Prod.fst).Nodup)
    (hends : ∀ p ∈ ends, p.1 ∈ table.numbers ∧ ∀ e ∈ table.entries, e.number = p.1 →
      e.range.start < p.2 ∧ p.2 ≤ e.range.stop) :
    ends.foldlM (fun table p => table.shrink p.1 p.2) table =
      some { table with entries := table.entries.map (Entry.cut ends) } := by
  induction ends generalizing table with
  | nil =>
    have hsame : table.entries.map (Entry.cut []) = table.entries := List.map_id _
    rw [hsame]
    rfl
  | cons p ends ih =>
    rw [List.map_cons, List.nodup_cons] at hnodup
    rw [List.foldlM_cons, Table.shrink, if_pos (hends p (by simp)), Option.bind_eq_bind,
      Option.bind_some, ih _ hnodup.2]
    · simp only [Option.some.injEq, Table.mk.injEq, Table.change, List.map_map, true_and]
      exact List.map_congr_left fun e _ => change_stop hnodup.1
    · intro q hq
      have hne : q.1 ≠ p.1 := by
        intro hsame
        exact hnodup.1 (hsame ▸ List.mem_map_of_mem hq)
      obtain ⟨hmem, hfits⟩ := hends q (by simp [hq])
      obtain ⟨e, he, hnumber⟩ := List.mem_map.mp hmem
      refine ⟨List.mem_map.mpr ⟨e, List.mem_map.mpr ⟨e, he, if_neg (hnumber ▸ hne)⟩, hnumber⟩, ?_⟩
      intro g hg hgnumber
      obtain ⟨f, hf, rfl⟩ := List.mem_map.mp hg
      split at hgnumber
      · rename_i hfnumber
        exact absurd (hgnumber.symm.trans hfnumber) hne
      · rename_i hfnumber
        rw [if_neg hfnumber]
        exact hfits f hf hgnumber

end Table

end Editing

end PartitionTables
