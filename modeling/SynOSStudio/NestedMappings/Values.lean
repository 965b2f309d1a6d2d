import Mathlib.Tactic

/-!
# Nested mappings

Values made of scalars, lists and mappings, as documents have them. A mapping keeps its members in
their order, but two mappings are the same in any order. Scalars that compare equal are one scalar.
-/

namespace NestedMappings

inductive Value (K S : Type) where
  | scalar (s : S)
  | list (items : List (Value K S))
  | mapping (members : List (K × Value K S))

abbrev Members (K S : Type) : Type := List (K × Value K S)

variable {K S : Type}

def keys (members : Members K S) : List K := members.map Prod.fst

/-- A property holds of every value if lists and mappings have it from what they hold. -/
@[elab_as_elim] theorem Value.induction {motive : Value K S → Prop}
    (scalar : ∀ s, motive (.scalar s))
    (list : ∀ items, (∀ item ∈ items, motive item) → motive (.list items))
    (mapping : ∀ members, (∀ member ∈ members, motive member.2) → motive (.mapping members))
    (v : Value K S) : motive v := by
  refine Value.rec (motive_1 := motive) (motive_2 := fun items => ∀ item ∈ items, motive item)
    (motive_3 := fun members => ∀ member ∈ members, motive member.2)
    (motive_4 := fun member => motive member.2) scalar list mapping ?_ ?_ ?_ ?_ ?_ v
  · exact fun _ h => nomatch h
  · exact fun _ _ hfirst hrest => List.forall_mem_cons.mpr ⟨hfirst, hrest⟩
  · exact fun _ h => nomatch h
  · exact fun _ _ hfirst hrest => List.forall_mem_cons.mpr ⟨hfirst, hrest⟩
  · exact fun _ _ h => h

/-! ## Equality -/

section Equality

variable [DecidableEq K] [DecidableEq S]

mutual

def same : Value K S → Value K S → Bool
  | .scalar a, .scalar b => a = b
  | .list as, .list bs => sameItems as bs
  | .mapping as, .mapping bs => as.length = bs.length && sameMembers as bs
  | _, _ => false

def sameItems : List (Value K S) → List (Value K S) → Bool
  | [], [] => true
  | a :: as, b :: bs => same a b && sameItems as bs
  | _, _ => false

/-- Every member is one of these, with the same value. -/
def sameMembers : Members K S → Members K S → Bool
  | [], _ => true
  | (key, a) :: as, bs =>
    (match bs.lookup key with
      | some b => same a b
      | none => false) && sameMembers as bs

end

end Equality

mutual

/-- Every mapping in the value has each of its keys once. -/
def Value.Valid : Value K S → Prop
  | .scalar _ => True
  | .list items => ValidItems items
  | .mapping members => (keys members).Nodup ∧ ValidMembers members

def ValidItems : List (Value K S) → Prop
  | [] => True
  | item :: items => item.Valid ∧ ValidItems items

def ValidMembers : Members K S → Prop
  | [] => True
  | (_, value) :: members => value.Valid ∧ ValidMembers members

end

theorem validItems_iff {items : List (Value K S)} :
    ValidItems items ↔ ∀ item ∈ items, item.Valid := by
  induction items with
  | nil => simp [ValidItems]
  | cons item items ih => simp [ValidItems, ih]

theorem validMembers_iff {members : Members K S} :
    ValidMembers members ↔ ∀ member ∈ members, member.2.Valid := by
  induction members with
  | nil => simp [ValidMembers]
  | cons member members ih => simp [ValidMembers, ih]

/-- The members of a mapping that is valid. -/
structure ValidMapping (members : Members K S) : Prop where
  nodup : (keys members).Nodup
  values : ∀ member ∈ members, member.2.Valid

theorem validMapping_nil : ValidMapping ([] : Members K S) :=
  ⟨List.nodup_nil, nofun⟩

theorem valid_mapping_iff {members : Members K S} :
    (Value.mapping members).Valid ↔ ValidMapping members := by
  rw [Value.Valid, validMembers_iff]
  exact ⟨fun h => ⟨h.1, h.2⟩, fun h => ⟨h.1, h.2⟩⟩

/-! ## Looking up -/

section Lookup

variable [DecidableEq K] {members : Members K S} {key : K} {value : Value K S}

theorem mem_of_lookup (h : members.lookup key = some value) : (key, value) ∈ members := by
  induction members with
  | nil => cases h
  | cons member members ih =>
    rw [List.lookup_cons] at h
    split at h
    · rename_i hkey
      cases h
      rw [beq_iff_eq.mp hkey]
      exact List.mem_cons_self
    · exact List.mem_cons_of_mem _ (ih h)

theorem lookup_of_mem (hnodup : (keys members).Nodup) (hmem : (key, value) ∈ members) :
    members.lookup key = some value := by
  induction members with
  | nil => cases hmem
  | cons member members ih =>
    rw [keys, List.map_cons, List.nodup_cons] at hnodup
    rw [List.lookup_cons]
    rcases List.mem_cons.mp hmem with rfl | htail
    · simp
    · have hne : key ≠ member.1 := by
        rintro rfl
        exact hnodup.1 (List.mem_map.mpr ⟨_, htail, rfl⟩)
      rw [beq_false_of_ne hne]
      exact ih hnodup.2 htail

theorem lookup_eq_none_iff : members.lookup key = none ↔ key ∉ keys members := by
  induction members with
  | nil => simp [keys]
  | cons member members ih =>
    rw [List.lookup_cons, keys, List.map_cons, List.mem_cons, not_or]
    by_cases hkey : key = member.1
    · simp [hkey]
    · rw [beq_false_of_ne hkey]
      exact ih.trans ⟨fun h => ⟨hkey, h⟩, And.right⟩

theorem exists_lookup (h : key ∈ keys members) : ∃ value, members.lookup key = some value := by
  rw [← Option.ne_none_iff_exists']
  exact fun hnone => lookup_eq_none_iff.mp hnone h

/-- Members with distinct keys are known from their keys, in order, and their values. -/
theorem members_ext {as bs : Members K S} (hnodup : (keys as).Nodup) (hkeys : keys as = keys bs)
    (hlookup : ∀ key ∈ keys as, as.lookup key = bs.lookup key) : as = bs := by
  induction as generalizing bs with
  | nil =>
    cases bs with
    | nil => rfl
    | cons => cases hkeys
  | cons a as ih =>
    cases bs with
    | nil => cases hkeys
    | cons b bs =>
      obtain ⟨key, u⟩ := a
      obtain ⟨key', w⟩ := b
      obtain ⟨rfl, hrest⟩ : key = key' ∧ keys as = keys bs := List.cons.inj hkeys
      have hfirst := hlookup key List.mem_cons_self
      simp only [List.lookup_cons_self, Option.some_inj] at hfirst
      rw [hfirst]
      obtain ⟨hnot, hnodup⟩ := List.nodup_cons.mp hnodup
      refine congrArg _ (ih hnodup hrest fun other hother => ?_)
      have hne : other ≠ key := fun heq => hnot (heq ▸ hother)
      have hother := hlookup other (List.mem_cons_of_mem _ hother)
      simpa [List.lookup_cons, beq_false_of_ne hne] using hother

end Lookup

/-! ## Equality is an equivalence -/

/-- As many members, all of them in the other mapping, are all that the other mapping has. -/
theorem keys_subset_of_length {as bs : Members K S} (has : (keys as).Nodup) (hlength : as.length = bs.length)
    (hsub : keys as ⊆ keys bs) : keys bs ⊆ keys as := by
  have hperm := (List.subperm_of_subset has hsub).perm_of_length_le (by simp [keys, hlength])
  exact hperm.symm.subset

section Equivalence

variable [DecidableEq K] [DecidableEq S] {as bs : Members K S}

theorem sameItems_iff {xs ys : List (Value K S)} :
    sameItems xs ys = true ↔ List.Forall₂ (fun x y => same x y = true) xs ys := by
  induction xs generalizing ys with
  | nil =>
    cases ys with
    | nil => simp [sameItems]
    | cons y ys => simp [sameItems]
  | cons x xs ih =>
    cases ys with
    | nil => simp [sameItems]
    | cons y ys => simp [sameItems, ih]

theorem sameMembers_iff : sameMembers as bs = true ↔
    ∀ member ∈ as, ∃ value, bs.lookup member.1 = some value ∧ same member.2 value = true := by
  induction as with
  | nil => simp [sameMembers]
  | cons member as ih =>
    obtain ⟨key, a⟩ := member
    rw [sameMembers, Bool.and_eq_true, ih, List.forall_mem_cons]
    refine and_congr_left fun _ => ?_
    cases hlookup : bs.lookup key with
    | none => simp
    | some value => simp

theorem same_refl (v : Value K S) : v.Valid → same v v = true := by
  induction v using Value.induction with
  | scalar s => exact fun _ => decide_eq_true rfl
  | list items ih =>
    intro hvalid
    rw [same, sameItems_iff, List.forall₂_same]
    exact fun item hitem => ih item hitem (validItems_iff.mp hvalid item hitem)
  | mapping members ih =>
    intro hvalid
    have hvalid := valid_mapping_iff.mp hvalid
    rw [same, decide_eq_true rfl, Bool.true_and, sameMembers_iff]
    exact fun member hmember => ⟨member.2, lookup_of_mem hvalid.nodup hmember,
      ih member hmember (hvalid.values member hmember)⟩

theorem same_symm (v w : Value K S) : v.Valid → w.Valid → same v w = true → same w v = true := by
  induction v using Value.induction generalizing w with
  | scalar s =>
    intro _ _ h
    cases w with
    | scalar t => exact decide_eq_true (of_decide_eq_true h).symm
    | list items => cases h
    | mapping members => cases h
  | list items ih =>
    intro hv hw h
    cases w with
    | scalar t => cases h
    | mapping members => cases h
    | list others =>
      rw [same, sameItems_iff, List.forall₂_iff_get] at h ⊢
      refine ⟨h.1.symm, fun i hi hi' => ?_⟩
      exact ih _ (List.get_mem _ _) _ (validItems_iff.mp hv _ (List.get_mem _ _))
        (validItems_iff.mp hw _ (List.get_mem _ _)) (h.2 i hi' hi)
  | mapping members ih =>
    intro hv hw h
    cases w with
    | scalar t => cases h
    | list items => cases h
    | mapping others =>
      have hv := valid_mapping_iff.mp hv
      have hw := valid_mapping_iff.mp hw
      rw [same, Bool.and_eq_true, decide_eq_true_eq, sameMembers_iff] at h ⊢
      refine ⟨h.1.symm, fun member hmember => ?_⟩
      have hsub : keys members ⊆ keys others := by
        intro key hkey
        obtain ⟨member, hmem, rfl⟩ := List.mem_map.mp hkey
        obtain ⟨value, hlookup, -⟩ := h.2 member hmem
        exact List.mem_map.mpr ⟨_, mem_of_lookup hlookup, rfl⟩
      have hkey : member.1 ∈ keys members := keys_subset_of_length hv.nodup h.1 hsub
        (List.mem_map.mpr ⟨member, hmember, rfl⟩)
      obtain ⟨value, hvalue⟩ := exists_lookup hkey
      have hmem := mem_of_lookup hvalue
      obtain ⟨other, hother, hsame⟩ := h.2 _ hmem
      cases (lookup_of_mem hw.nodup hmember).symm.trans hother
      exact ⟨value, hvalue, ih _ hmem _ (hv.values _ hmem) (hw.values _ hmember) hsame⟩

theorem same_trans (u v w : Value K S) : same u v = true → same v w = true → same u w = true := by
  induction u using Value.induction generalizing v w with
  | scalar s =>
    intro h h'
    cases v with
    | scalar t =>
      cases w with
      | scalar r => exact decide_eq_true ((of_decide_eq_true h).trans (of_decide_eq_true h'))
      | list items => cases h'
      | mapping members => cases h'
    | list items => cases h
    | mapping members => cases h
  | list items ih =>
    intro h h'
    cases v with
    | scalar t => cases h
    | mapping members => cases h
    | list others =>
      cases w with
      | scalar r => cases h'
      | mapping members => cases h'
      | list last =>
        rw [same, sameItems_iff, List.forall₂_iff_get] at h h' ⊢
        refine ⟨h.1.trans h'.1, fun i hi hi' => ?_⟩
        exact ih _ (List.get_mem _ _) _ _ (h.2 i hi (h.1 ▸ hi)) (h'.2 i (h.1 ▸ hi) hi')
  | mapping members ih =>
    intro h h'
    cases v with
    | scalar t => cases h
    | list items => cases h
    | mapping others =>
      cases w with
      | scalar r => cases h'
      | list items => cases h'
      | mapping last =>
        rw [same, Bool.and_eq_true, decide_eq_true_eq, sameMembers_iff] at h h' ⊢
        refine ⟨h.1.trans h'.1, fun member hmember => ?_⟩
        obtain ⟨middle, hmiddle, hsame⟩ := h.2 member hmember
        obtain ⟨value, hvalue, hsame'⟩ := h'.2 _ (mem_of_lookup hmiddle)
        exact ⟨value, hvalue, ih member hmember _ _ hsame hsame'⟩

end Equivalence

end NestedMappings
