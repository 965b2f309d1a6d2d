import SynOSStudio.KeyedLists.FirstOccurrences
import SynOSStudio.NestedMappings.Values

/-!
# Merging nested mappings

A mapping is merged into another member by member: mappings are merged in turn, lists under some
keys are joined, and everything else is replaced. Merging the same mapping again changes nothing,
and where the values are of the same kinds it does not matter which merge is done first.
-/

namespace NestedMappings

open KeyedLists (addAll addAll_idem addAll_self addAll_assoc addNew_of_has addNew_of_not_has
  has_iff_mem forall_mem_addAll join join_nil join_nodup join_assoc EquivalenceOn)

variable {K S : Type} [DecidableEq K]

/-! ## One member at a time -/

/-- The member of a key is replaced in its place, or is put last. -/
def setMember : Members K S → K → Value K S → Members K S
  | [], key, value => [(key, value)]
  | (other, old) :: members, key, value =>
    if other = key then (other, value) :: members else (other, old) :: setMember members key value

section Members

variable {key other : K} {value : Value K S} {out : Members K S}

theorem lookup_cons_if : ((key, value) :: out).lookup other =
    if other = key then some value else out.lookup other := by
  by_cases h : other = key
  · rw [if_pos h, h, List.lookup_cons_self]
  · rw [if_neg h, List.lookup_cons, beq_false_of_ne h]

theorem lookup_setMember : (setMember out key value).lookup other =
    if other = key then some value else out.lookup other := by
  induction out with
  | nil => rw [setMember, lookup_cons_if]
  | cons member out ih =>
    obtain ⟨first, old⟩ := member
    rw [setMember]
    by_cases hfirst : first = key
    · rw [if_pos hfirst, hfirst, lookup_cons_if, lookup_cons_if]
      split_ifs
      · rfl
      · rfl
    · rw [if_neg hfirst, lookup_cons_if, lookup_cons_if, ih]
      by_cases hother : other = first
      · rw [if_pos hother, if_neg (hother ▸ hfirst), if_pos hother]
      · rw [if_neg hother, if_neg hother]

theorem keys_setMember : keys (setMember out key value) = join (keys out) [key] := by
  induction out with
  | nil => rfl
  | cons member out ih =>
    obtain ⟨first, old⟩ := member
    rw [setMember]
    by_cases hfirst : first = key
    · have hhas : key ∈ keys ((first, old) :: out) := List.mem_cons.mpr (.inl hfirst.symm)
      rw [if_pos hfirst, join, addAll, addAll, addNew_of_has (has_iff_mem.mpr hhas)]
      rfl
    · rw [if_neg hfirst]
      have hcons : keys ((first, old) :: setMember out key value) =
          first :: join (keys out) [key] := congrArg (first :: ·) ih
      have hmem : key ∈ keys ((first, old) :: out) ↔ key ∈ keys out :=
        List.mem_cons.trans (or_iff_right fun h => hfirst h.symm)
      rw [hcons, join, join, addAll, addAll, addAll, addAll]
      by_cases hkey : key ∈ keys out
      · rw [addNew_of_has (has_iff_mem.mpr hkey), addNew_of_has (has_iff_mem.mpr (hmem.mpr hkey))]
        rfl
      · rw [addNew_of_not_has (mt has_iff_mem.mp hkey),
          addNew_of_not_has (mt has_iff_mem.mp (mt hmem.mp hkey))]
        rfl

end Members

/-! ## Merging -/

section Merging

variable [DecidableEq S] {joins : K → Bool} {key : K} {out override : Members K S}

mutual

def mergeValue (joins : K → Bool) (key : K) : Option (Value K S) → Value K S → Value K S
  | _, .scalar s => .scalar s
  | some (.list out), .list value =>
    if joins key then .list (addAll same out value) else .list value
  | _, .list value => .list value
  | some (.mapping out), .mapping value => .mapping (merge joins out value)
  | _, .mapping value => .mapping value

def merge (joins : K → Bool) : Members K S → Members K S → Members K S
  | out, [] => out
  | out, (key, value) :: override =>
    merge joins (setMember out key (mergeValue joins key (out.lookup key) value)) override

end

/-- What a merge makes of the members of one key. -/
def mergeMember (joins : K → Bool) (key : K) (old : Option (Value K S)) :
    Option (Value K S) → Option (Value K S)
  | some value => some (mergeValue joins key old value)
  | none => old

theorem mergeMember_some (old : Option (Value K S)) (value : Value K S) :
    mergeMember joins key old (some value) = some (mergeValue joins key old value) := rfl

theorem lookup_merge (hnodup : (keys override).Nodup) : (merge joins out override).lookup key =
    mergeMember joins key (out.lookup key) (override.lookup key) := by
  induction override generalizing out with
  | nil => rw [merge, List.lookup_nil, mergeMember]
  | cons member override ih =>
    obtain ⟨first, value⟩ := member
    obtain ⟨hnot, hnodup⟩ := List.nodup_cons.mp hnodup
    rw [merge, ih hnodup, lookup_setMember, lookup_cons_if]
    by_cases hkey : key = first
    · subst hkey
      rw [if_pos rfl, if_pos rfl, lookup_eq_none_iff.mpr hnot]
      rfl
    · rw [if_neg hkey, if_neg hkey]

theorem keys_merge : keys (merge joins out override) = join (keys out) (keys override) := by
  induction override generalizing out with
  | nil => rfl
  | cons member override ih =>
    obtain ⟨first, value⟩ := member
    rw [merge, ih, keys_setMember]
    rfl

@[simp] theorem mergeValue_scalar (old : Option (Value K S)) (s : S) :
    mergeValue joins key old (.scalar s) = .scalar s := by
  simp [mergeValue]

theorem mergeValue_joined (hjoins : joins key = true) (before items : List (Value K S)) :
    mergeValue joins key (some (.list before)) (.list items) =
      .list (addAll same before items) := by
  rw [mergeValue, if_pos hjoins]

theorem mergeValue_replaced (hjoins : ¬ joins key = true) (old : Option (Value K S))
    (items : List (Value K S)) : mergeValue joins key old (.list items) = .list items := by
  rcases old with _ | (s | before | members)
  · simp [mergeValue]
  · simp [mergeValue]
  · rw [mergeValue, if_neg hjoins]
  · simp [mergeValue]

theorem mergeValue_list (joins : K → Bool) (key : K) (old : Option (Value K S)) (items : List (Value K S)) :
    mergeValue joins key old (.list items) = .list items ∨ ∃ before, old = some (.list before) ∧
      mergeValue joins key old (.list items) = .list (addAll same before items) := by
  by_cases hjoins : joins key = true
  · rcases old with _ | (s | before | members)
    · exact .inl (by simp [mergeValue])
    · exact .inl (by simp [mergeValue])
    · exact .inr ⟨before, rfl, mergeValue_joined hjoins before items⟩
    · exact .inl (by simp [mergeValue])
  · exact .inl (mergeValue_replaced hjoins old items)

theorem mergeValue_mapping (joins : K → Bool) (key : K) (old : Option (Value K S)) (members : Members K S) :
    mergeValue joins key old (.mapping members) = .mapping members ∨
      ∃ before, old = some (.mapping before) ∧
        mergeValue joins key old (.mapping members) = .mapping (merge joins before members) := by
  rcases old with _ | (s | items | before)
  · exact .inl (by simp [mergeValue])
  · exact .inl (by simp [mergeValue])
  · exact .inl (by simp [mergeValue])
  · exact .inr ⟨before, rfl, by simp [mergeValue]⟩

@[simp] theorem mergeValue_none (value : Value K S) : mergeValue joins key none value = value := by
  cases value with
  | scalar s => exact mergeValue_scalar none s
  | list items => simp [mergeValue]
  | mapping members => simp [mergeValue]

@[simp] theorem mergeMember_none (new : Option (Value K S)) :
    mergeMember joins key none new = new := by
  cases new with
  | none => rfl
  | some value => exact congrArg some (mergeValue_none value)

/-- A mapping is what it is merged into nothing. -/
theorem merge_nil (hnodup : (keys override).Nodup) : merge joins [] override = override := by
  have hkeys : keys (merge joins [] override) = keys override := by
    rw [keys_merge]
    exact join_nil hnodup
  refine members_ext (hkeys ▸ hnodup) hkeys fun key _ => ?_
  rw [lookup_merge hnodup, List.lookup_nil, mergeMember_none]

end Merging

/-! ## Merges are valid -/

section Validity

variable {out : Members K S}

theorem values_of_lookup (hout : ValidMapping out) {value : Value K S}
    (h : out.lookup key = some value) : value.Valid :=
  hout.values _ (mem_of_lookup h)

theorem validMapping_iff : ValidMapping out ↔
    (keys out).Nodup ∧ ∀ key value, out.lookup key = some value → value.Valid := by
  refine ⟨fun h => ⟨h.nodup, fun key value => values_of_lookup h⟩, fun h => ⟨h.1, ?_⟩⟩
  exact fun member hmember => h.2 member.1 member.2 (lookup_of_mem h.1 hmember)

variable [DecidableEq S] {joins : K → Bool} {key : K} {override : Members K S}

theorem validMapping_merge_of (hout : ValidMapping out) (hnodup : (keys override).Nodup)
    (hvalues : ∀ member ∈ override, ∀ key old, (∀ u ∈ old, u.Valid) →
      (mergeValue joins key old member.2).Valid) : ValidMapping (merge joins out override) := by
  rw [validMapping_iff, keys_merge]
  refine ⟨join_nodup hout.nodup, fun key value hlookup => ?_⟩
  rw [lookup_merge hnodup] at hlookup
  cases hnew : override.lookup key with
  | none =>
    rw [hnew, mergeMember] at hlookup
    exact values_of_lookup hout hlookup
  | some new =>
    rw [hnew, mergeMember, Option.some_inj] at hlookup
    rw [← hlookup]
    exact hvalues _ (mem_of_lookup hnew) key _ fun u hu => values_of_lookup hout hu

theorem valid_mergeValue (value : Value K S) : ∀ {key : K} {old : Option (Value K S)},
    value.Valid → (∀ u ∈ old, u.Valid) → (mergeValue joins key old value).Valid := by
  induction value using Value.induction with
  | scalar s =>
    intro key old _ _
    rw [mergeValue_scalar]
    trivial
  | list items =>
    intro key old hvalue hold
    rcases mergeValue_list joins key old items with heq | ⟨before, rfl, heq⟩
    · rwa [heq]
    · rw [heq, Value.Valid, validItems_iff]
      exact forall_mem_addAll (validItems_iff.mp (hold _ rfl)) (validItems_iff.mp hvalue)
  | mapping members ih =>
    intro key old hvalue hold
    rcases mergeValue_mapping joins key old members with
      heq | ⟨before, rfl, heq⟩
    · rwa [heq]
    · have hmembers := valid_mapping_iff.mp hvalue
      rw [heq, valid_mapping_iff]
      exact validMapping_merge_of (valid_mapping_iff.mp (hold _ rfl)) hmembers.nodup
        fun member hmember key old hold => ih member hmember (hmembers.values member hmember) hold

theorem validMapping_merge (hout : ValidMapping out) (hoverride : ValidMapping override) :
    ValidMapping (merge joins out override) :=
  validMapping_merge_of hout hoverride.nodup fun member hmember _ _ hold =>
    valid_mergeValue member.2 (hoverride.values member hmember) hold

end Validity

/-! ## Merging again -/

section Again

variable [DecidableEq S] {joins : K → Bool} {key : K} {out override : Members K S}

theorem merge_again_of (hout : (keys out).Nodup) (hnodup : (keys override).Nodup)
    (hvalues : ∀ member ∈ override, ∀ key, ∀ old : Option (Value K S), (∀ u ∈ old, u.Valid) →
      mergeValue joins key (some (mergeValue joins key old member.2)) member.2 =
        mergeValue joins key old member.2) (hold : ∀ member ∈ out, member.2.Valid) :
    merge joins (merge joins out override) override = merge joins out override := by
  have hkeys : keys (merge joins (merge joins out override) override) =
      keys (merge joins out override) := by
    rw [keys_merge, keys_merge]
    exact addAll_idem fun _ _ => decide_eq_true rfl
  have hmerged : (keys (merge joins out override)).Nodup := by
    rw [keys_merge]
    exact join_nodup hout
  refine members_ext (hkeys ▸ hmerged) hkeys fun key _ => ?_
  rw [lookup_merge hnodup, lookup_merge hnodup]
  cases hnew : override.lookup key with
  | none => rfl
  | some new =>
    have hagain := hvalues _ (mem_of_lookup hnew) key (out.lookup key) fun u hu =>
      hold _ (mem_of_lookup hu)
    exact congrArg some hagain

theorem mergeValue_again (value : Value K S) : ∀ {key : K} {old : Option (Value K S)},
    value.Valid → (∀ u ∈ old, u.Valid) →
      mergeValue joins key (some (mergeValue joins key old value)) value =
        mergeValue joins key old value := by
  induction value using Value.induction with
  | scalar s => simp
  | list items =>
    intro key old hvalue _
    have hrefl : ∀ item ∈ items, same item item = true := fun item hitem =>
      same_refl item (validItems_iff.mp hvalue item hitem)
    rcases mergeValue_list joins key old items with heq | ⟨before, rfl, heq⟩
    · rw [heq]
      by_cases hjoins : joins key = true
      · rw [mergeValue_joined hjoins, addAll_self hrefl]
      · exact mergeValue_replaced hjoins _ items
    · rw [heq]
      by_cases hjoins : joins key = true
      · rw [mergeValue_joined hjoins, addAll_idem hrefl]
      · rw [mergeValue_replaced hjoins] at heq ⊢
        exact heq
  | mapping members ih =>
    intro key old hvalue hold
    have hmembers := valid_mapping_iff.mp hvalue
    have hvalues : ∀ member ∈ members, ∀ key, ∀ old : Option (Value K S), (∀ u ∈ old, u.Valid) →
        mergeValue joins key (some (mergeValue joins key old member.2)) member.2 =
          mergeValue joins key old member.2 := fun member hmember _ _ hold =>
      ih member hmember (hmembers.values member hmember) hold
    rcases mergeValue_mapping joins key old members with
      heq | ⟨before, rfl, heq⟩
    · have hself : merge joins members members = members := by
        have hagain : merge joins (merge joins [] members) members = merge joins [] members :=
          merge_again_of List.nodup_nil hmembers.nodup hvalues nofun
        rwa [merge_nil hmembers.nodup] at hagain
      rw [heq]
      simp [mergeValue, hself]
    · have hbefore := valid_mapping_iff.mp (hold _ rfl)
      rw [heq]
      simp [mergeValue, merge_again_of hbefore.nodup hmembers.nodup hvalues hbefore.values]

/-- Merging the same mapping twice is merging it once. -/
theorem merge_again (hout : ValidMapping out) (hoverride : ValidMapping override) :
    merge joins (merge joins out override) override = merge joins out override :=
  merge_again_of hout.nodup hoverride.nodup
    (fun member hmember _ _ hold => mergeValue_again member.2 (hoverride.values member hmember) hold)
    hout.values

end Again

/-! ## Kinds -/

inductive Kind
  | scalar
  | list
  | mapping

def Value.kind : Value K S → Kind
  | .scalar _ => .scalar
  | .list _ => .list
  | .mapping _ => .mapping

/-- What stands at the end of a path of keys. -/
def Value.at? : Value K S → List K → Option (Value K S)
  | v, [] => some v
  | .mapping members, key :: path => (members.lookup key).bind fun v => v.at? path
  | _, _ :: _ => none

/-- What two values have at the same path is of the same kind. -/
def SameKinds (v w : Value K S) : Prop :=
  ∀ path a b, v.at? path = some a → w.at? path = some b → a.kind = b.kind

section Kinds

variable {u v w : Value K S} {as bs : Members K S} {key : K}

theorem SameKinds.kind (h : SameKinds v w) : v.kind = w.kind :=
  h [] v w rfl rfl

theorem SameKinds.symm (h : SameKinds v w) : SameKinds w v :=
  fun path a b ha hb => (h path b a hb ha).symm

theorem SameKinds.lookup (h : SameKinds (.mapping as) (.mapping bs)) (hv : as.lookup key = some v)
    (hw : bs.lookup key = some w) : SameKinds v w := by
  intro path a b ha hb
  refine h (key :: path) a b ?_ ?_
  · rw [Value.at?, hv]
    exact ha
  · rw [Value.at?, hw]
    exact hb

theorem sameKinds_nil (members : Members K S) : SameKinds (.mapping []) (.mapping members) := by
  intro path a b ha hb
  cases path with
  | nil => cases ha; cases hb; rfl
  | cons step path => cases ha

end Kinds

/-! ## Merges in another order -/

section Order

variable [DecidableEq S] {joins : K → Bool} {as bs cs : Members K S}

theorem equivalenceOn_same :
    EquivalenceOn (fun v w : Value K S => same v w) Value.Valid :=
  ⟨same_refl, same_symm, fun u v w _ _ _ => same_trans u v w⟩

/-- The values under a key of three mappings are valid and of the same kinds. -/
structure Alike (x y z : Option (Value K S)) : Prop where
  first : ∀ u ∈ x, u.Valid
  second : ∀ v ∈ y, v.Valid
  third : ∀ w ∈ z, w.Valid
  firstSecond : ∀ u ∈ x, ∀ v ∈ y, SameKinds u v
  firstThird : ∀ u ∈ x, ∀ w ∈ z, SameKinds u w
  secondThird : ∀ v ∈ y, ∀ w ∈ z, SameKinds v w

theorem merge_assoc_of (has : (keys as).Nodup) (hbs : (keys bs).Nodup) (hcs : (keys cs).Nodup)
    (h : ∀ key w, cs.lookup key = some w →
      mergeMember joins key (mergeMember joins key (as.lookup key) (bs.lookup key)) (some w) =
        mergeMember joins key (as.lookup key) (mergeMember joins key (bs.lookup key) (some w))) :
    merge joins (merge joins as bs) cs = merge joins as (merge joins bs cs) := by
  have hkeys : keys (merge joins (merge joins as bs) cs) =
      keys (merge joins as (merge joins bs cs)) := by
    simp only [keys_merge, join_assoc]
  have hmerged : (keys (merge joins bs cs)).Nodup := by
    rw [keys_merge]
    exact join_nodup hbs
  refine members_ext ?_ hkeys fun key _ => ?_
  · rw [keys_merge, keys_merge]
    exact join_nodup (join_nodup has)
  · rw [lookup_merge hcs, lookup_merge hbs, lookup_merge hmerged, lookup_merge hcs]
    cases hnew : cs.lookup key with
    | none => rfl
    | some w => exact h key w hnew

theorem mergeMember_assoc (w : Value K S) : ∀ {key : K} {x y : Option (Value K S)},
    Alike x y (some w) → mergeMember joins key (mergeMember joins key x y) (some w) =
      mergeMember joins key x (mergeMember joins key y (some w)) := by
  induction w using Value.induction with
  | scalar s => simp [mergeMember]
  | list items =>
    intro key x y h
    rcases x with _ | u
    · rw [mergeMember_none, mergeMember_none]
    rcases y with _ | v
    · simp [mergeMember]
    have hu := (h.firstThird u rfl _ rfl).kind
    have hv := (h.secondThird v rfl _ rfl).kind
    obtain ⟨before, rfl⟩ : ∃ before, u = .list before := by
      cases u with
      | list before => exact ⟨before, rfl⟩
      | scalar s => cases hu
      | mapping members => cases hu
    obtain ⟨middle, rfl⟩ : ∃ middle, v = .list middle := by
      cases v with
      | list middle => exact ⟨middle, rfl⟩
      | scalar s => cases hv
      | mapping members => cases hv
    have hassoc : addAll same (addAll same before middle) items =
        addAll same before (addAll same middle items) :=
      addAll_assoc equivalenceOn_same (validItems_iff.mp (h.first _ rfl))
        (validItems_iff.mp (h.second _ rfl)) (validItems_iff.mp (h.third _ rfl))
    by_cases hjoins : joins key = true
    · simp only [mergeMember_some, mergeValue_joined hjoins, hassoc]
    · simp only [mergeMember_some, mergeValue_replaced hjoins]
  | mapping members ih =>
    intro key x y h
    rcases x with _ | u
    · rw [mergeMember_none, mergeMember_none]
    rcases y with _ | v
    · simp [mergeMember]
    have hu := (h.firstThird u rfl _ rfl).kind
    have hv := (h.secondThird v rfl _ rfl).kind
    obtain ⟨before, rfl⟩ : ∃ before, u = .mapping before := by
      cases u with
      | mapping before => exact ⟨before, rfl⟩
      | scalar s => cases hu
      | list items => cases hu
    obtain ⟨middle, rfl⟩ : ∃ middle, v = .mapping middle := by
      cases v with
      | mapping middle => exact ⟨middle, rfl⟩
      | scalar s => cases hv
      | list items => cases hv
    have hbefore := valid_mapping_iff.mp (h.first _ rfl)
    have hmiddle := valid_mapping_iff.mp (h.second _ rfl)
    have hmembers := valid_mapping_iff.mp (h.third _ rfl)
    have hassoc : merge joins (merge joins before middle) members =
        merge joins before (merge joins middle members) := by
      refine merge_assoc_of hbefore.nodup hmiddle.nodup hmembers.nodup fun other w hw => ?_
      refine ih (other, w) (mem_of_lookup hw) ⟨?_, ?_, ?_, ?_, ?_, ?_⟩
      · exact fun u hu => values_of_lookup hbefore hu
      · exact fun v hv => values_of_lookup hmiddle hv
      · intro _ hw'
        cases hw'
        exact values_of_lookup hmembers hw
      · exact fun u hu v hv => (h.firstSecond _ rfl _ rfl).lookup hu hv
      · intro u hu _ hw'
        cases hw'
        exact (h.firstThird _ rfl _ rfl).lookup hu hw
      · intro v hv _ hw'
        cases hw'
        exact (h.secondThird _ rfl _ rfl).lookup hv hw
    simp only [mergeMember_some, mergeValue, hassoc]

/-- Mappings of the same kinds can be merged in either order. -/
theorem merge_assoc (has : ValidMapping as) (hbs : ValidMapping bs) (hcs : ValidMapping cs)
    (hab : SameKinds (.mapping as) (.mapping bs)) (hac : SameKinds (.mapping as) (.mapping cs))
    (hbc : SameKinds (.mapping bs) (.mapping cs)) :
    merge joins (merge joins as bs) cs = merge joins as (merge joins bs cs) := by
  refine merge_assoc_of has.nodup hbs.nodup hcs.nodup fun key w hw => ?_
  refine mergeMember_assoc w ⟨?_, ?_, ?_, ?_, ?_, ?_⟩
  · exact fun u hu => values_of_lookup has hu
  · exact fun v hv => values_of_lookup hbs hv
  · intro _ hw'
    cases hw'
    exact values_of_lookup hcs hw
  · exact fun u hu v hv => hab.lookup hu hv
  · intro u hu _ hw'
    cases hw'
    exact hac.lookup hu hw
  · intro v hv _ hw'
    cases hw'
    exact hbc.lookup hv hw

end Order

/-! ## Merges in any grouping -/

section Groupings

variable [DecidableEq S] {joins : K → Bool} {key : K} {out override : Members K S}

/-- What a merge has at a path is of the kind that one of its two sides has there. -/
theorem at?_mergeValue {path : List K} {a value : Value K S} : ∀ {key : K}
    {old : Option (Value K S)}, value.Valid →
    (mergeValue joins key old value).at? path = some a →
      ∃ b, ((∃ u ∈ old, u.at? path = some b) ∨ value.at? path = some b) ∧ b.kind = a.kind := by
  induction path generalizing value with
  | nil =>
    intro key old _ ha
    cases ha
    refine ⟨value, .inr rfl, ?_⟩
    cases value with
    | scalar s => rw [mergeValue_scalar]
    | list items =>
      rcases mergeValue_list joins key old items with heq | ⟨_, _, heq⟩
      · rw [heq]
      · rw [heq]
        rfl
    | mapping members =>
      rcases mergeValue_mapping joins key old members with heq | ⟨_, _, heq⟩
      · rw [heq]
      · rw [heq]
        rfl
  | cons step path ih =>
    intro key old hvalue ha
    cases value with
    | scalar s =>
      rw [mergeValue_scalar] at ha
      exact ⟨a, .inr ha, rfl⟩
    | list items =>
      rcases mergeValue_list joins key old items with heq | ⟨_, _, heq⟩
      · rw [heq] at ha
        exact ⟨a, .inr ha, rfl⟩
      · rw [heq] at ha
        cases ha
    | mapping members =>
      rcases mergeValue_mapping joins key old members with
        heq | ⟨before, rfl, heq⟩
      · rw [heq] at ha
        exact ⟨a, .inr ha, rfl⟩
      · have hmembers := valid_mapping_iff.mp hvalue
        rw [heq, Value.at?, lookup_merge hmembers.nodup] at ha
        cases hnew : members.lookup step with
        | none =>
          rw [hnew] at ha
          exact ⟨a, .inl ⟨_, rfl, ha⟩, rfl⟩
        | some new =>
          rw [hnew, mergeMember_some, Option.bind_some] at ha
          obtain ⟨b, hb, hkind⟩ := ih (values_of_lookup hmembers hnew) ha
          refine ⟨b, ?_, hkind⟩
          rcases hb with ⟨u, hu, hb⟩ | hb
          · exact .inl ⟨_, rfl, Option.bind_eq_some_iff.mpr ⟨u, hu, hb⟩⟩
          · exact .inr (Option.bind_eq_some_iff.mpr ⟨new, hnew, hb⟩)

theorem sameKinds_merge {w : Value K S} (hoverride : ValidMapping override)
    (hout : SameKinds (.mapping out) w) (hnew : SameKinds (.mapping override) w) :
    SameKinds (.mapping (merge joins out override)) w := by
  intro path a b ha hb
  cases path with
  | nil =>
    cases ha
    exact hout [] (.mapping out) b rfl hb
  | cons step path =>
    rw [Value.at?, lookup_merge hoverride.nodup] at ha
    cases hlookup : override.lookup step with
    | none =>
      rw [hlookup] at ha
      exact hout (step :: path) a b ha hb
    | some new =>
      rw [hlookup, mergeMember_some, Option.bind_some] at ha
      obtain ⟨c, hc, hkind⟩ := at?_mergeValue (values_of_lookup hoverride hlookup) ha
      rw [← hkind]
      rcases hc with ⟨u, hu, hc⟩ | hc
      · exact hout (step :: path) c b (Option.bind_eq_some_iff.mpr ⟨u, hu, hc⟩) hb
      · exact hnew (step :: path) c b (Option.bind_eq_some_iff.mpr ⟨new, hlookup, hc⟩) hb

/-- The mappings of a list, merged from the first to the last. -/
def mergeAll (joins : K → Bool) (mappings : List (Members K S)) : Members K S :=
  mappings.foldl (merge joins) []

theorem mergeAll_concat (mappings : List (Members K S)) (last : Members K S) :
    mergeAll joins (mappings ++ [last]) = merge joins (mergeAll joins mappings) last :=
  List.foldl_concat ..

theorem validMapping_mergeAll {mappings : List (Members K S)}
    (h : ∀ mapping ∈ mappings, ValidMapping mapping) : ValidMapping (mergeAll joins mappings) := by
  induction mappings using List.reverseRecOn with
  | nil => exact validMapping_nil
  | append_singleton mappings last ih =>
    obtain ⟨hmappings, hlast⟩ := List.forall_mem_append.mp h
    rw [mergeAll_concat]
    exact validMapping_merge (ih hmappings) (hlast last List.mem_cons_self)

theorem sameKinds_mergeAll {mappings : List (Members K S)} {other : Members K S}
    (h : ∀ mapping ∈ mappings, ValidMapping mapping ∧ SameKinds (.mapping mapping) (.mapping other)) :
    SameKinds (.mapping (mergeAll joins mappings)) (.mapping other) := by
  induction mappings using List.reverseRecOn with
  | nil => exact sameKinds_nil other
  | append_singleton mappings last ih =>
    obtain ⟨hmappings, hlast⟩ := List.forall_mem_append.mp h
    obtain ⟨hvalid, hkinds⟩ := hlast last List.mem_cons_self
    rw [mergeAll_concat]
    exact sameKinds_merge hvalid (ih hmappings) hkinds

theorem merge_nil_right (members : Members K S) : merge joins members [] = members := by
  rw [merge]

/-- Two lists of mappings can be merged before they are merged with each other. -/
theorem mergeAll_append {first second : List (Members K S)}
    (hvalid : ∀ mapping ∈ first ++ second, ValidMapping mapping)
    (hkinds : (first ++ second).Pairwise fun a b => SameKinds (.mapping a) (.mapping b)) :
    mergeAll joins (first ++ second) =
      merge joins (mergeAll joins first) (mergeAll joins second) := by
  induction second using List.reverseRecOn with
  | nil =>
    rw [List.append_nil]
    exact (merge_nil_right _).symm
  | append_singleton second last ih =>
    rw [← List.append_assoc] at hvalid hkinds ⊢
    obtain ⟨hboth, hlast⟩ := List.forall_mem_append.mp hvalid
    obtain ⟨hfirst, hsecond⟩ := List.forall_mem_append.mp hboth
    obtain ⟨hpairs, -, hacross⟩ := List.pairwise_append.mp hkinds
    obtain ⟨-, -, hbetween⟩ := List.pairwise_append.mp hpairs
    have hfirstSecond : SameKinds (.mapping (mergeAll joins first))
        (.mapping (mergeAll joins second)) := by
      refine SameKinds.symm (sameKinds_mergeAll fun b hb => ⟨hsecond b hb, ?_⟩)
      exact SameKinds.symm (sameKinds_mergeAll fun a ha => ⟨hfirst a ha, hbetween a ha b hb⟩)
    have hto (mappings : List (Members K S)) (hsub : mappings ⊆ first ++ second) :
        SameKinds (.mapping (mergeAll joins mappings)) (.mapping last) :=
      sameKinds_mergeAll fun a ha => ⟨hboth a (hsub ha), hacross a (hsub ha) last (by simp)⟩
    rw [mergeAll_concat, mergeAll_concat, ih hboth hpairs,
      merge_assoc (validMapping_mergeAll hfirst) (validMapping_mergeAll hsecond)
        (hlast last List.mem_cons_self) hfirstSecond (hto first (List.subset_append_left _ _))
        (hto second (List.subset_append_right _ _))]

/-- A way to put parentheses around mappings that are merged. -/
inductive Grouping (K S : Type)
  | one (mapping : Members K S)
  | both (first second : Grouping K S)

def Grouping.mappings : Grouping K S → List (Members K S)
  | .one mapping => [mapping]
  | .both first second => first.mappings ++ second.mappings

def Grouping.merged (joins : K → Bool) : Grouping K S → Members K S
  | .one mapping => mapping
  | .both first second => merge joins (first.merged joins) (second.merged joins)

theorem merged_eq_mergeAll (grouping : Grouping K S)
    (hvalid : ∀ mapping ∈ grouping.mappings, ValidMapping mapping)
    (hkinds : grouping.mappings.Pairwise fun a b => SameKinds (.mapping a) (.mapping b)) :
    grouping.merged joins = mergeAll joins grouping.mappings := by
  induction grouping with
  | one mapping => exact (merge_nil (hvalid mapping List.mem_cons_self).nodup).symm
  | both first second ihFirst ihSecond =>
    obtain ⟨hfirst, hsecond⟩ := List.forall_mem_append.mp hvalid
    obtain ⟨hleft, hright, -⟩ := List.pairwise_append.mp hkinds
    rw [Grouping.merged, ihFirst hfirst hleft, ihSecond hsecond hright]
    exact (mergeAll_append hvalid hkinds).symm

end Groupings

end NestedMappings
