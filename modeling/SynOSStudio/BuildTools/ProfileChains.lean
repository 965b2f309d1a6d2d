import SynOSStudio.NestedMappings.Merging

/-!
# Profiles that extend one another

A profile is merged over the one that it extends, down to a profile that extends none. Profiles
that have been visited are refused, so a chain ends even where profiles extend one another in
circles.
-/

namespace BuildTools.Profiles

open NestedMappings

variable {S : Type}

/-- Lists under these keys are joined. -/
def joinedKeys : List String :=
  ["add", "remove", "bundles", "apps", "remotes", "repositories", "debs", "appimages", "playbooks",
    "first_boot_roles", "allowed_groups", "autostart"]

def deepMerge [DecidableEq S] (base override : Members String S) : Members String S :=
  merge (fun key => joinedKeys.contains key) base override

example : deepMerge [("add", .list [.scalar 1, .scalar 1]), ("gpu", .scalar 0)]
    [("gpu", .scalar 2), ("add", .list [.scalar 3, .scalar 1, .scalar 3])] =
      [("add", .list [.scalar 1, .scalar 1, .scalar 3]), ("gpu", .scalar (2 : ℕ))] := by rfl

/-- The profiles that can be loaded, and the profile that a file name leads to. -/
structure Directory (S : Type) where
  files : List (Members String S)
  valid : ∀ file ∈ files, ValidMapping file
  find : Value String S → Option ℕ

def Directory.load (directory : Directory S) (id : Value String S) : Option (Members String S) :=
  (directory.find id).bind fun i => directory.files[i]?

inductive ManifestError (S : Type)
  | cycle (ids : List (Value String S))
  | refused (id : Value String S)
  | declares (id : Value String S) (declared : Option (Value String S))

/-- Truth of a value, from that of scalars. -/
def isTrue (truthy : S → Bool) : Value String S → Bool
  | .scalar s => truthy s
  | .list items => !items.isEmpty
  | .mapping members => !members.isEmpty

def parentOf (truthy : S → Bool) (data : Members String S) : Option (Value String S) :=
  (data.lookup "extends").filter (isTrue truthy)

def namingKeys : List String := ["id", "extends", "description"]

/-- A profile without what only names it. -/
def body (data : Members String S) : Members String S :=
  data.filter fun member => !namingKeys.contains member.1

theorem load_mem {directory : Directory S} {id : Value String S} {data : Members String S}
    (h : directory.load id = some data) : data ∈ directory.files := by
  obtain ⟨i, -, hdata⟩ := Option.bind_eq_some_iff.mp h
  exact List.mem_of_getElem? hdata

theorem nodup_body {data : Members String S} (h : ValidMapping data) : (keys (body data)).Nodup :=
  h.nodup.sublist (List.filter_sublist.map _)

theorem valid_parent {truthy : S → Bool} {directory : Directory S} {id parent : Value String S}
    {data : Members String S} (hload : directory.load id = some data)
    (hparent : parentOf truthy data = some parent) : parent.Valid := by
  obtain ⟨hlookup, -⟩ := Option.filter_eq_some_iff.mp hparent
  exact (directory.valid data (load_mem hload)).values _ (mem_of_lookup hlookup)

variable [DecidableEq S]

def declaresId (data : Members String S) (id : Value String S) : Bool :=
  (data.lookup "id").any fun declared => same declared id

/-- `resolve_profile`, with the number of profiles that it may load. -/
def resolveProfile (truthy : S → Bool) (directory : Directory S) : ℕ → Value String S →
    List (Value String S) →
      Option (Except (ManifestError S) (Members String S × List (Value String S)))
  | 0, _, _ => none
  | fuel + 1, id, seen =>
    if seen.any fun visited => same visited id then some (.error (.cycle (seen ++ [id])))
    else
      match directory.load id with
      | none => some (.error (.refused id))
      | some data =>
        if !declaresId data id then some (.error (.declares id (data.lookup "id")))
        else
          match parentOf truthy data with
          | none => some (.ok (body data, [id]))
          | some parent =>
            (resolveProfile truthy directory fuel parent (seen ++ [id])).map fun outcome =>
              outcome.map fun (parentData, parentChain) =>
                (deepMerge parentData (body data), parentChain ++ [id])

/-! ## Resolution ends -/

section Termination

variable {truthy : S → Bool} {directory : Directory S} {id parent : Value String S}
  {seen : List (Value String S)} {data : Members String S} {fuel : ℕ}

/-- The profiles on the way are loaded, and no two are the same. -/
structure Visited (directory : Directory S) (seen : List (Value String S)) : Prop where
  valid : ∀ id ∈ seen, id.Valid
  loaded : ∀ id ∈ seen, ∃ data, directory.load id = some data ∧ declaresId data id = true
  distinct : seen.Pairwise fun earlier later => same earlier later = false

theorem visited_nil : Visited directory [] :=
  ⟨nofun, nofun, .nil⟩

theorem declaresId_iff : declaresId data id = true ↔
    ∃ declared, data.lookup "id" = some declared ∧ same declared id = true := by
  rw [declaresId, Option.any_eq_true]

theorem visited_append (h : Visited directory seen) (hvalid : id.Valid)
    (hnew : (seen.any fun visited => same visited id) = false)
    (hload : directory.load id = some data) (hdeclares : declaresId data id = true) :
    Visited directory (seen ++ [id]) := by
  refine ⟨?_, ?_, ?_⟩
  · exact List.forall_mem_append.mpr ⟨h.valid, List.forall_mem_singleton.mpr hvalid⟩
  · exact List.forall_mem_append.mpr
      ⟨h.loaded, List.forall_mem_singleton.mpr ⟨data, hload, hdeclares⟩⟩
  · refine List.pairwise_append.mpr ⟨h.distinct, List.pairwise_singleton _ _, ?_⟩
    intro visited hvisited last hlast
    rw [List.mem_singleton.mp hlast]
    exact Bool.eq_false_of_not_eq_true (List.any_eq_false.mp hnew visited hvisited)

/-- Each of them has a file of its own. -/
theorem Visited.length_le (h : Visited directory seen) :
    seen.length ≤ directory.files.length := by
  have hnodup : (seen.map directory.find).Nodup := by
    rw [List.Nodup, List.pairwise_map]
    refine h.distinct.imp_of_mem fun {a b} ha hb hdistinct hfind => ?_
    obtain ⟨data, hdata, hdeclares⟩ := h.loaded a ha
    obtain ⟨other, hother, hdeclares'⟩ := h.loaded b hb
    rw [Directory.load, hfind] at hdata
    cases hdata.symm.trans hother
    obtain ⟨declared, hlookup, hsame⟩ := declaresId_iff.mp hdeclares
    obtain ⟨declared', hlookup', hsame'⟩ := declaresId_iff.mp hdeclares'
    cases hlookup.symm.trans hlookup'
    have hvalid : declared.Valid :=
      (directory.valid _ (load_mem hother)).values _ (mem_of_lookup hlookup)
    have hab := same_trans a declared b (same_symm declared a hvalid (h.valid a ha) hsame) hsame'
    cases hdistinct.symm.trans hab
  have hsub : seen.map directory.find ⊆ (List.range directory.files.length).map some := by
    intro place hplace
    obtain ⟨id, hid, rfl⟩ := List.mem_map.mp hplace
    obtain ⟨data, hdata, -⟩ := h.loaded id hid
    obtain ⟨i, hi, hget⟩ := Option.bind_eq_some_iff.mp hdata
    rw [hi]
    exact List.mem_map.mpr ⟨i, List.mem_range.mpr (List.getElem?_eq_some_iff.mp hget).1, rfl⟩
  simpa using (List.subperm_of_subset hnodup hsub).length_le

/-- With more loads than files a chain comes to its end. -/
theorem resolveProfile_ne_none (hseen : Visited directory seen) (hvalid : id.Valid)
    (hfuel : directory.files.length < fuel + seen.length) :
    resolveProfile truthy directory fuel id seen ≠ none := by
  induction fuel generalizing id seen with
  | zero => exact absurd hseen.length_le (by omega)
  | succ fuel ih =>
    rw [resolveProfile]
    split_ifs with hany
    · nofun
    · cases hload : directory.load id with
      | none => nofun
      | some data =>
        simp only
        split_ifs with hdeclares
        · nofun
        · cases hparent : parentOf truthy data with
          | none => nofun
          | some parent =>
            have hvisited := visited_append hseen hvalid (Bool.eq_false_of_not_eq_true hany) hload
              (by simpa using hdeclares)
            have hrest := ih hvisited (valid_parent hload hparent) (by simp; omega)
            simpa using hrest

/-- More loads give the same outcome. -/
theorem resolveProfile_succ
    {outcome : Except (ManifestError S) (Members String S × List (Value String S))}
    (h : resolveProfile truthy directory fuel id seen = some outcome) :
    resolveProfile truthy directory (fuel + 1) id seen = some outcome := by
  induction fuel generalizing id seen outcome with
  | zero => cases h
  | succ fuel ih =>
    rw [resolveProfile] at h ⊢
    split_ifs at h ⊢ with hany
    · exact h
    · cases hload : directory.load id with
      | none =>
        rw [hload] at h
        exact h
      | some data =>
        rw [hload] at h
        simp only at h ⊢
        split_ifs at h ⊢ with hdeclares
        · exact h
        · cases hparent : parentOf truthy data with
          | none =>
            rw [hparent] at h
            exact h
          | some parent =>
            rw [hparent] at h
            obtain ⟨rest, hrest, heq⟩ := Option.map_eq_some_iff.mp h
            exact Option.map_eq_some_iff.mpr ⟨rest, ih hrest, heq⟩

end Termination

/-! ## What a chain is -/

section Chains

variable {truthy : S → Bool} {directory : Directory S} {id : Value String S}
  {seen chain : List (Value String S)} {merged : Members String S} {fuel : ℕ}

/-- The first profile is loaded, and extends the second one if there is one. -/
def Extends (truthy : S → Bool) (directory : Directory S) (id : Value String S)
    (parent : Option (Value String S)) : Prop :=
  ∃ data, directory.load id = some data ∧ parentOf truthy data = parent

/-- A chain that leads to a profile, and what its profiles are merged to. -/
structure Resolved (truthy : S → Bool) (directory : Directory S) (id : Value String S)
    (merged : Members String S) (chain : List (Value String S)) : Prop where
  distinct : chain.Pairwise fun earlier later => same later earlier = false
  last : chain.getLast? = some id
  root : ∃ first, chain.head? = some first ∧ Extends truthy directory first none
  linked : chain.IsChain fun parent child => Extends truthy directory child (some parent)
  merged : ∃ profiles, List.Forall₂ (fun id data => directory.load id = some data) chain profiles ∧
    merged = (profiles.map body).foldl deepMerge []

/-- A profile is resolved from the outcome for the one that it extends. -/
theorem resolveProfile_ok (h : resolveProfile truthy directory fuel id seen =
    some (.ok (merged, chain))) :
    (∀ later ∈ chain, ∀ visited ∈ seen, same visited later = false) ∧
      Resolved truthy directory id merged chain := by
  induction fuel generalizing id seen merged chain with
  | zero => cases h
  | succ fuel ih =>
    rw [resolveProfile] at h
    split_ifs at h with hany
    · cases h
    have hnew : ∀ visited ∈ seen, same visited id = false := fun visited hvisited =>
      Bool.eq_false_of_not_eq_true fun hsame => hany (List.any_eq_true.mpr ⟨visited, hvisited, hsame⟩)
    cases hload : directory.load id with
    | none =>
      rw [hload] at h
      cases h
    | some data =>
      rw [hload] at h
      simp only at h
      split_ifs at h with hdeclares
      · cases h
      cases hparent : parentOf truthy data with
      | none =>
        rw [hparent] at h
        cases h
        refine ⟨fun later hlater => List.mem_singleton.mp hlater ▸ hnew, ?_⟩
        refine ⟨List.pairwise_singleton _ _, rfl, ⟨id, rfl, data, hload, hparent⟩, .singleton _,
          [data], .cons hload .nil, ?_⟩
        exact (merge_nil (nodup_body (directory.valid data (load_mem hload)))).symm
      | some parent =>
        rw [hparent] at h
        obtain ⟨rest, hrest, heq⟩ := Option.map_eq_some_iff.mp h
        cases rest with
        | error e => cases heq
        | ok resolved =>
          obtain ⟨parentData, parentChain⟩ := resolved
          cases heq
          obtain ⟨hbefore, hresolved⟩ := ih hrest
          obtain ⟨first, hfirst, hroot⟩ := hresolved.root
          obtain ⟨profiles, hprofiles, hmerged⟩ := hresolved.merged
          refine ⟨?_, ?_, ?_, ⟨first, ?_, hroot⟩, ?_, profiles ++ [data], ?_, ?_⟩
          · refine List.forall_mem_append.mpr ⟨fun later hlater visited hvisited => ?_,
              List.forall_mem_singleton.mpr hnew⟩
            exact hbefore later hlater visited (List.mem_append_left _ hvisited)
          · refine List.pairwise_append.mpr
              ⟨hresolved.distinct, List.pairwise_singleton _ _, fun earlier hearlier last hlast => ?_⟩
            rw [List.mem_singleton.mp hlast]
            exact hbefore earlier hearlier id (List.mem_append_right _ List.mem_cons_self)
          · simp
          · rw [List.head?_append, hfirst]
            rfl
          · refine List.isChain_append.mpr ⟨hresolved.linked, .singleton _, ?_⟩
            intro earlier hearlier last hlast
            cases hlast
            cases hresolved.last.symm.trans hearlier
            exact ⟨data, hload, hparent⟩
          · exact List.rel_append hprofiles (.cons hload .nil)
          · rw [List.map_append, List.foldl_append, ← hmerged]
            rfl

/-- Every request for a profile ends. What it resolves is a chain of different profiles, each of
which extends the one before it, merged in their order; merging a profile twice is merging it once,
and profiles of the same kinds can be merged in any grouping. -/
theorem profiles_resolve_to_merged_chains (truthy : S → Bool) (directory : Directory S) (id : S) :
    (∃ outcome, ∀ fuel, directory.files.length < fuel →
      resolveProfile truthy directory fuel (.scalar id) [] = some outcome) ∧
    (∀ fuel merged chain,
      resolveProfile truthy directory fuel (.scalar id) [] = some (.ok (merged, chain)) →
        Resolved truthy directory (.scalar id) merged chain) ∧
    (∀ base override : Members String S, ValidMapping base → ValidMapping override →
      deepMerge (deepMerge base override) override = deepMerge base override) ∧
    (∀ first second third : Members String S,
      ValidMapping first → ValidMapping second → ValidMapping third →
      SameKinds (.mapping first) (.mapping second) → SameKinds (.mapping first) (.mapping third) →
      SameKinds (.mapping second) (.mapping third) →
        deepMerge (deepMerge first second) third = deepMerge first (deepMerge second third)) ∧
    ∀ grouping : Grouping String S, (∀ mapping ∈ grouping.mappings, ValidMapping mapping) →
      (grouping.mappings.Pairwise fun a b => SameKinds (.mapping a) (.mapping b)) →
        grouping.merged joinedKeys.contains = grouping.mappings.foldl deepMerge [] := by
  refine ⟨?_, fun fuel merged chain h => (resolveProfile_ok h).2, ?_, ?_, ?_⟩
  · have hends : resolveProfile truthy directory (directory.files.length + 1) (.scalar id) [] ≠
        none := resolveProfile_ne_none visited_nil trivial (by simp)
    obtain ⟨outcome, houtcome⟩ := Option.ne_none_iff_exists'.mp hends
    refine ⟨outcome, fun fuel hfuel => ?_⟩
    induction fuel, Nat.succ_le_of_lt hfuel using Nat.le_induction with
    | base => exact houtcome
    | succ fuel hle ih => exact resolveProfile_succ (ih hle)
  · exact fun base override hbase hoverride => merge_again hbase hoverride
  · exact fun first second third h h' h'' => merge_assoc h h' h''
  · exact fun grouping hvalid hkinds => merged_eq_mergeAll grouping hvalid hkinds

/-- Two profiles, of which the second one extends the first one. -/
def twoProfiles : Directory String where
  files := [[("id", .scalar "base"), ("add", .list [.scalar "git"])],
    [("id", .scalar "desk"), ("extends", .scalar "base"), ("add", .list [.scalar "vim"])]]
  valid := by
    refine List.forall_mem_cons.mpr ⟨⟨by decide, ?_⟩, List.forall_mem_singleton.mpr ⟨by decide, ?_⟩⟩
    · simp [Value.Valid, ValidItems]
    · simp [Value.Valid, ValidItems]
  find
    | .scalar "base" => some 0
    | .scalar "desk" => some 1
    | _ => none

theorem validMapping_gpu : ValidMapping [("gpu", Value.scalar "cuda")] :=
  ⟨List.nodup_singleton _, List.forall_mem_singleton.mpr trivial⟩

theorem desk_resolves :
    Resolved (fun s => s ≠ "") twoProfiles (.scalar "desk")
      [("add", .list [.scalar "git", .scalar "vim"])] [.scalar "base", .scalar "desk"] ∧
    deepMerge (deepMerge [("gpu", .scalar "none")] [("gpu", .scalar "cuda")])
      [("gpu", .scalar "cuda")] = deepMerge [("gpu", .scalar "none")] [("gpu", .scalar "cuda")] ∧
    deepMerge (deepMerge [] [("gpu", .scalar "cuda")]) [("gpu", .scalar "cuda")] =
      deepMerge [] (deepMerge [("gpu", .scalar "cuda")] [("gpu", .scalar "cuda")]) ∧
    (Grouping.both (.one []) (.one [("gpu", .scalar "cuda")])).merged joinedKeys.contains =
      [[], [("gpu", .scalar "cuda")]].foldl deepMerge [] := by
  obtain ⟨-, hresolved, hagain, hassoc, hgrouping⟩ :=
    profiles_resolve_to_merged_chains (fun s => s ≠ "") twoProfiles "desk"
  have hnone : ValidMapping [("gpu", Value.scalar "none")] :=
    ⟨List.nodup_singleton _, List.forall_mem_singleton.mpr trivial⟩
  have hself : SameKinds (.mapping [("gpu", Value.scalar "cuda")])
      (.mapping [("gpu", Value.scalar "cuda")]) := fun path a b ha hb => by
    rw [Option.some_injective _ (ha.symm.trans hb)]
  refine ⟨hresolved 3 _ _ (by rfl), hagain _ _ hnone validMapping_gpu,
    hassoc _ _ _ validMapping_nil validMapping_gpu validMapping_gpu (sameKinds_nil _)
      (sameKinds_nil _) hself, hgrouping _ ?_ ?_⟩
  · exact List.forall_mem_cons.mpr ⟨validMapping_nil, List.forall_mem_singleton.mpr validMapping_gpu⟩
  · exact List.pairwise_pair.mpr (sameKinds_nil _)

end Chains

end BuildTools.Profiles
